/-
**The citation check of the composer**: `verify_citations`.

A match of `_CITATION` is a pair of brackets with nothing but text in it, together with the space in
front (`citation_first_iff`), and its group 2 depends on that text alone (`idPart`). The check goes
over the answer once. What it writes is read again by whoever looks for citations in the result, and
there the brackets may pair up differently: where a fabricated citation goes, what stood around it
closes up.
-/

import Freshet.Lib.Calendar
import Freshet.Lib.Dict
import Freshet.Lib.PyText

namespace Freshet.Rag

open Freshet.Lib

/-- `[^\[\]]`. -/
def notBracket (c : Char) : Bool := c != '[' && c != ']'

/-- `(?:\s*@\s*(?:[^\[\]]*?))?`. -/
def citedStamp : Regex Char :=
  .opt (.all [.many isSpace, exactly "@", .many isSpace, .few notBracket])

/-- `_CITATION`. -/
def citation : Regex Char :=
  .all [.group 1 (.many isSpace), exactly "[", .group 2 (.someFew notBracket), citedStamp,
    .many isSpace, exactly "]"]

/-- `[A-Za-z0-9_.:\-]`. -/
def isIdChar (c : Char) : Bool :=
  c.isAlphanum || c == '_' || c == '.' || c == ':' || c == '-'

/-- `_ID_SHAPED`. The `$` also matches before a newline that ends the text. -/
def idShaped : Regex Char :=
  .all [.ahead (.all [.many (· != '\n'), .one fun c => isDigit c || c == '_' || c == ':' || c == '-']),
    .one Char.isAlphanum, .one isIdChar, .one isIdChar, .many isIdChar,
    .alt .atEnd (.ahead (.all [exactly "\n", .atEnd]))]

/-- What the check reads of a piece of evidence. -/
structure Cited where
  eventId : List Char
  ts : Clock
deriving DecidableEq

/-- A number with noughts in front. -/
def padded (width n : Nat) : List Char := (Nat.toDigits 10 n).leftpad width '0'

/-- `f"{ts:%Y-%m-%d %H:%M:%S}"`. -/
def stamp (ts : Clock) : List Char :=
  padded 4 ts.year.toNat ++ '-' :: padded 2 ts.month ++ '-' :: padded 2 ts.day ++
    ' ' :: padded 2 ts.hour ++ ':' :: padded 2 ts.minute ++ ':' :: padded 2 ts.second

/-- `allowed`. -/
def allowed (hits : List Cited) : Dict (List Char) (List Char) :=
  hits.foldl (fun stamps hit => stamps.set hit.eventId (stamp hit.ts)) []

/-- `keep`. -/
def keep (allowed : Dict (List Char) (List Char)) (found : Regex.Match Char) : List Char :=
  let lead := (found.group 1).getD []
  let cited := strip ((found.group 2).getD [])
  if (idShaped.first cited).isNone then found.text
  else match allowed.get cited with
    | none => []
    | some stamp => lead ++ '[' :: cited ++ " @ ".toList ++ stamp ++ [']']

/-- `verify_citations`. -/
def verifyCitations (answer : List Char) (hits : List Cited) : List Char :=
  citation.sub (keep (allowed hits)) answer

/-! ### What `_CITATION` matches -/

/-- Text without brackets. -/
def BracketFree (text : List Char) : Prop := ∀ c ∈ text, notBracket c = true

/-- What `_CITATION` does between the brackets. -/
def inner : Regex Char :=
  .all [.group 2 (.someFew notBracket), citedStamp, .many isSpace, .atEnd]

/-- The id part of what stands between two brackets. -/
def idPart (content : List Char) : List Char :=
  ((inner.first content).bind fun found => found.1.group 2).getD []

theorem notBracket_of_isSpace {c : Char} (space : isSpace c = true) : notBracket c = true := by
  cases bracket : notBracket c with
  | true => rfl
  | false =>
    have either : c = '[' ∨ c = ']' := by
      unfold notBracket at bracket
      exact Classical.or_iff_not_imp_left.mpr (by simpa using bracket)
    rcases either with rfl | rfl
    · exact absurd space (by decide)
    · exact absurd space (by decide)

theorem BracketFree.append {before after : List Char} :
    BracketFree (before ++ after) ↔ BracketFree before ∧ BracketFree after := by
  unfold BracketFree
  rw [List.forall_mem_append]

theorem BracketFree.open_not_mem {text : List Char} (free : BracketFree text) : '[' ∉ text :=
  fun member => absurd (free _ member) (by decide)

theorem BracketFree.close_not_mem {text : List Char} (free : BracketFree text) : ']' ∉ text :=
  fun member => absurd (free _ member) (by decide)

/-- The part after the id captures nothing. -/
theorem mem_ways_citedStamp {w v : Way Char} (member : v ∈ citedStamp.ways w) :
    ∃ text, BracketFree text ∧ w.rest = text ++ v.rest ∧ v.groups = w.groups := by
  rcases List.mem_append.mp member with here | none
  · obtain ⟨w₁, first, here⟩ := Regex.mem_ways_seq.mp here
    obtain ⟨w₂, second, here⟩ := Regex.mem_ways_seq.mp here
    obtain ⟨w₃, third, here⟩ := Regex.mem_ways_seq.mp here
    obtain ⟨w₄, fourth, here⟩ := Regex.mem_ways_seq.mp here
    obtain rfl := List.mem_singleton.mp here
    obtain ⟨gap, split₁, spaces, same₁⟩ := Regex.mem_ways_many.mp first
    obtain ⟨split₂, same₂⟩ := mem_ways_exactly.mp second
    obtain ⟨gap', split₃, spaces', same₃⟩ := Regex.mem_ways_many.mp third
    obtain ⟨text, split₄, free, same₄⟩ := Regex.mem_ways_few.mp fourth
    refine ⟨gap ++ ("@".toList ++ (gap' ++ text)), ?_, ?_, ?_⟩
    · rw [BracketFree.append, BracketFree.append, BracketFree.append]
      refine ⟨fun c inside => notBracket_of_isSpace (spaces c inside), ?_,
        fun c inside => notBracket_of_isSpace (spaces' c inside), free⟩
      intro c inside
      obtain rfl := List.mem_singleton.mp inside
      decide
    · rw [split₁, split₂, split₃, split₄]
      simp only [List.append_assoc]
    · rw [same₄, same₃, same₂, same₁]
  · obtain rfl := List.mem_singleton.mp none
    exact ⟨[], by simp [BracketFree], rfl, rfl⟩

/-- What `inner` consumes is everything, and it captures the id part. -/
theorem mem_ways_inner {w v : Way Char} (member : v ∈ inner.ways w) :
    v.rest = [] ∧ ∃ part, v.groups = (2, part) :: w.groups := by
  obtain ⟨w₁, first, member⟩ := Regex.mem_ways_seq.mp member
  obtain ⟨w₂, second, member⟩ := Regex.mem_ways_seq.mp member
  obtain ⟨w₃, third, member⟩ := Regex.mem_ways_seq.mp member
  obtain ⟨w₄, fourth, member⟩ := Regex.mem_ways_seq.mp member
  obtain rfl := List.mem_singleton.mp member
  obtain ⟨u, some, rfl⟩ := List.mem_map.mp first
  obtain ⟨x, one, few⟩ := Regex.mem_ways_seq.mp some
  obtain ⟨c, -, -, same₀⟩ := Regex.mem_ways_one.mp one
  obtain ⟨text, -, -, same₁⟩ := Regex.mem_ways_few.mp few
  obtain ⟨-, -, -, same₂⟩ := mem_ways_citedStamp second
  obtain ⟨-, -, -, same₃⟩ := Regex.mem_ways_many.mp third
  unfold Regex.ways at fourth
  split_ifs at fourth with ended
  · obtain rfl := List.mem_singleton.mp fourth
    refine ⟨List.isEmpty_iff.mp ended, Regex.consumed w.rest u.rest, ?_⟩
    rw [same₃, same₂]
    show _ :: u.groups = _
    rw [same₁, same₀]
  · exact absurd fourth List.not_mem_nil

/-- **The text between two brackets always has an id part.** -/
theorem inner_leads {content : List Char} (full : content ≠ []) (free : BracketFree content)
    (groups : List (Nat × List Char)) :
    inner.Leads ⟨content, groups⟩ ⟨[], (2, idPart content) :: groups⟩ := by
  obtain ⟨c, cs, rfl⟩ := List.exists_cons_of_ne_nil full
  obtain ⟨passes, free⟩ := List.forall_mem_cons.mp free
  have whole : (⟨[], [(2, c :: cs)]⟩ : Way Char) ∈ inner.ways ⟨c :: cs, []⟩ := by
    refine Regex.mem_ways_seq.mpr ⟨⟨[], [(2, c :: cs)]⟩, ?_, ?_⟩
    · refine List.mem_map.mpr ⟨⟨[], []⟩, ?_, by simp [Regex.consumed]⟩
      exact Regex.mem_ways_seq.mpr ⟨⟨cs, []⟩, Regex.mem_ways_one.mpr ⟨c, rfl, passes, rfl⟩,
        Regex.mem_ways_few.mpr ⟨cs, by simp, free, rfl⟩⟩
    · refine Regex.mem_ways_seq.mpr ⟨⟨[], [(2, c :: cs)]⟩, ?_, ?_⟩
      · exact List.mem_append.mpr (Or.inr (List.mem_singleton_self _))
      · exact Regex.mem_ways_seq.mpr ⟨_, Regex.mem_ways_many.mpr ⟨[], rfl, by simp, rfl⟩,
          List.mem_singleton_self _⟩
  obtain ⟨v, later, here⟩ := List.exists_cons_of_ne_nil (List.ne_nil_of_mem whole)
  obtain ⟨rest, part, captured⟩ := mem_ways_inner (w := ⟨c :: cs, []⟩) (v := v) (by simp [here])
  have found : idPart (c :: cs) = part := by
    unfold idPart Regex.first
    rw [here]
    show ((v.groups.lookup 2).getD []) = part
    rw [captured]
    rfl
  have under := Regex.ways_under inner groups ⟨c :: cs, []⟩
  have start : Way.under groups ⟨c :: cs, []⟩ = ⟨c :: cs, groups⟩ := rfl
  rw [start, here] at under
  unfold Regex.Leads
  rw [under, found, List.map_cons, List.head?_cons]
  obtain ⟨rest', groups'⟩ := v
  obtain rfl : rest' = [] := rest
  obtain rfl : groups' = [(2, part)] := captured
  rfl

/-- The part of `_CITATION` after the opening bracket. -/
def tail : Regex Char := .all [.group 2 (.someFew notBracket), citedStamp, .many isSpace, exactly "]"]

/-- **The closing bracket is to the pattern as the end of the text.** -/
theorem ways_tail {content : List Char} (free : BracketFree content) (rest : List Char)
    (groups : List (Nat × List Char)) :
    tail.ways ⟨content ++ ']' :: rest, groups⟩ =
      (inner.ways ⟨content, groups⟩).map fun u => ⟨rest, u.groups⟩ := by
  let body : Regex Char := .all [.group 2 (.someFew notBracket), citedStamp, .many isSpace]
  have cut : ∀ last w, (Regex.all [.group 2 (.someFew notBracket), citedStamp, .many isSpace,
      last]).ways w = (body.ways w).flatMap (Regex.all [last]).ways := fun last w =>
    Regex.ways_all_append [.group 2 (.someFew notBracket), citedStamp, .many isSpace] [last] w
  have barrier : body.ways ⟨content ++ ']' :: rest, groups⟩ =
      (body.ways ⟨content, groups⟩).map (Way.extend (']' :: rest)) :=
    Regex.ways_barrier (by decide)
      (by simp [body, citedStamp, exactly, Regex.Open, Regex.all, Regex.word, Regex.someFew,
        Regex.opt]) ⟨content, groups⟩ rest
  unfold tail inner
  rw [cut, cut, barrier, List.flatMap_map, List.map_flatMap]
  refine List.flatMap_congr fun u member => ?_
  obtain ⟨text, split⟩ := Regex.ways_suffix member
  obtain ⟨left, held⟩ := u
  cases left with
  | nil => rfl
  | cons c left =>
    have inside : c ∈ content := by
      rw [show content = text ++ c :: left from split]
      simp
    have other : c ≠ ']' := fun same => free.close_not_mem (same ▸ inside)
    have fails : (exactly "]").ways ⟨c :: (left ++ ']' :: rest), held⟩ = [] := by
      rw [List.eq_nil_iff_forall_not_mem]
      intro v here
      exact other (List.cons.inj (mem_ways_exactly.mp here).1).1
    show ((exactly "]").ways ⟨c :: (left ++ ']' :: rest), held⟩).flatMap _ = _
    rw [fails]
    rfl

/-- The match at a pair of brackets with nothing but text in it. -/
def pairMatch (gap content : List Char) : Regex.Match Char where
  text := gap ++ '[' :: content ++ [']']
  groups := [(2, idPart content), (1, gap)]

theorem citation_first {gap content : List Char} (spaces : ∀ c ∈ gap, isSpace c = true)
    (full : content ≠ []) (free : BracketFree content) (rest : List Char) :
    citation.first (gap ++ '[' :: content ++ ']' :: rest) =
      some (pairMatch gap content, rest) := by
  have inside : tail.Leads ⟨content ++ ']' :: rest, [(1, gap)]⟩
      ⟨rest, [(2, idPart content), (1, gap)]⟩ := by
    have leads := inner_leads full free [(1, gap)]
    unfold Regex.Leads at leads ⊢
    rw [ways_tail free, List.head?_map, leads]
    rfl
  have opening : (exactly "[").ways ⟨'[' :: content ++ ']' :: rest, [(1, gap)]⟩ =
      [⟨content ++ ']' :: rest, [(1, gap)]⟩] :=
    @Regex.ways_word_append Char _ ['['] (.cons rfl .nil) (content ++ ']' :: rest) [(1, gap)]
  have leads : citation.Leads ⟨gap ++ ('[' :: content ++ ']' :: rest), []⟩
      ⟨rest, [(2, idPart content), (1, gap)]⟩ := by
    refine Regex.Leads.groupMany spaces ?_ (Regex.Leads.only opening inside)
    intro c cs eq
    obtain rfl := (List.cons.inj eq).1
    rfl
  have split : gap ++ '[' :: content ++ ']' :: rest =
      (gap ++ '[' :: content ++ [']']) ++ rest := by simp
  have whole : gap ++ ('[' :: content ++ ']' :: rest) =
      (gap ++ '[' :: content ++ [']']) ++ rest := by simp
  rw [whole] at leads
  rw [split]
  exact Regex.first_of_leads leads

/-- **A citation is a pair of brackets with nothing but text in it**, and the space in front. -/
theorem citation_first_iff {input rest : List Char} {m : Regex.Match Char} :
    citation.first input = some (m, rest) ↔ ∃ gap content, (∀ c ∈ gap, isSpace c = true) ∧
      content ≠ [] ∧ BracketFree content ∧ input = gap ++ '[' :: content ++ ']' :: rest ∧
      m = pairMatch gap content := by
  constructor
  · intro found
    have member := Regex.mem_ways_of_first found
    obtain ⟨w₁, first, member⟩ := Regex.mem_ways_seq.mp member
    obtain ⟨w₂, opening, member⟩ := Regex.mem_ways_seq.mp member
    obtain ⟨w₃, third, member⟩ := Regex.mem_ways_seq.mp member
    obtain ⟨w₄, fourth, member⟩ := Regex.mem_ways_seq.mp member
    obtain ⟨w₅, fifth, member⟩ := Regex.mem_ways_seq.mp member
    obtain ⟨w₆, closing, member⟩ := Regex.mem_ways_seq.mp member
    obtain rfl := List.mem_singleton.mp member
    obtain ⟨u, inner₁, same₁⟩ := Regex.mem_ways_group first
    obtain ⟨gap, split₁, spaces, -⟩ := Regex.mem_ways_many.mp inner₁
    obtain ⟨split₂, -⟩ := mem_ways_exactly.mp opening
    obtain ⟨u', inner₃, same₃⟩ := Regex.mem_ways_group third
    obtain ⟨x, one, few⟩ := Regex.mem_ways_seq.mp inner₃
    obtain ⟨c, split₃, passes, -⟩ := Regex.mem_ways_one.mp one
    obtain ⟨text, split₄, free, -⟩ := Regex.mem_ways_few.mp few
    obtain ⟨stamp, free', split₅, -⟩ := mem_ways_citedStamp fourth
    obtain ⟨space, split₆, spaces', -⟩ := Regex.mem_ways_many.mp fifth
    obtain ⟨split₇, -⟩ := mem_ways_exactly.mp closing
    have whole : input = gap ++ '[' :: (c :: text ++ stamp ++ space) ++ ']' :: rest := by
      rw [show input = gap ++ u.rest from split₁, same₁, split₂, split₃, split₄, same₃, split₅,
        split₆, split₇]
      simp
    have content : BracketFree (c :: text ++ stamp ++ space) := by
      rw [BracketFree.append, BracketFree.append]
      exact ⟨⟨List.forall_mem_cons.mpr ⟨passes, free⟩, free'⟩,
        fun d inside => notBracket_of_isSpace (spaces' d inside)⟩
    have full : c :: text ++ stamp ++ space ≠ [] := List.cons_ne_nil _ _
    refine ⟨gap, c :: text ++ stamp ++ space, spaces, full, content, whole, ?_⟩
    rw [whole, citation_first spaces full content] at found
    exact (Prod.mk.inj (Option.some.inj found)).1.symm
  · rintro ⟨gap, content, spaces, full, free, rfl, rfl⟩
    exact citation_first spaces full free rest

/-! ### Ids -/

theorem isSpace_of_isIdChar {c : Char} (idChar : isIdChar c = true) : isSpace c = false := by
  have code : (48 ≤ c.toNat ∧ c.toNat ≤ 57) ∨ (65 ≤ c.toNat ∧ c.toNat ≤ 90) ∨
      (97 ≤ c.toNat ∧ c.toNat ≤ 122) ∨ c.toNat = 95 ∨ c.toNat = 46 ∨ c.toNat = 58 ∨
      c.toNat = 45 := by
    have within : ∀ {low high : UInt32}, (decide (c.val ≥ low) && decide (c.val ≤ high)) = true →
        low ≤ c.val ∧ c.val ≤ high := by
      intro low high inside
      rw [Bool.and_eq_true, decide_eq_true_eq, decide_eq_true_eq] at inside
      exact inside
    have cases : (c.isUpper || c.isLower || c.isDigit || c == '_' || c == '.' || c == ':' ||
        c == '-') = true := idChar
    simp only [Bool.or_eq_true, beq_iff_eq] at cases
    rcases cases with (((((upper | lower) | digit) | rfl) | rfl) | rfl) | rfl
    · exact Or.inr (Or.inl (of_decide_eq_true (p := 65 ≤ c.val ∧ c.val ≤ 90) upper))
    · exact Or.inr (Or.inr (Or.inl (@within 97 122 lower)))
    · exact Or.inl (@within 48 57 digit)
    all_goals decide
  unfold isSpace isSpaceCode
  simp only [Bool.or_eq_false_iff, Bool.and_eq_false_iff, decide_eq_false_iff_not, beq_eq_false_iff_ne]
  omega

theorem notBracket_of_isIdChar {c : Char} (idChar : isIdChar c = true) : notBracket c = true := by
  unfold notBracket
  rw [Bool.and_eq_true, bne_iff_ne, bne_iff_ne]
  constructor
  · rintro rfl
    exact absurd idChar (by decide)
  · rintro rfl
    exact absurd idChar (by decide)

/-- What is id-shaped and stripped has no other characters than an id. -/
theorem isIdChar_of_idShaped {cited : List Char} (shaped : (idShaped.first cited).isSome)
    (trimmed : ∀ full : cited ≠ [], isSpace (cited.getLast full) = false) :
    cited ≠ [] ∧ ∀ c ∈ cited, isIdChar c = true := by
  obtain ⟨⟨m, rest⟩, found⟩ := Option.isSome_iff_exists.mp shaped
  have member := Regex.mem_ways_of_first found
  obtain ⟨w₁, looked, member⟩ := Regex.mem_ways_seq.mp member
  obtain ⟨w₂, first, member⟩ := Regex.mem_ways_seq.mp member
  obtain ⟨w₃, second, member⟩ := Regex.mem_ways_seq.mp member
  obtain ⟨w₄, third, member⟩ := Regex.mem_ways_seq.mp member
  obtain ⟨w₅, run, member⟩ := Regex.mem_ways_seq.mp member
  obtain ⟨w₆, ended, member⟩ := Regex.mem_ways_seq.mp member
  obtain rfl := List.mem_singleton.mp member
  have same : w₁.rest = cited := by
    unfold Regex.ways at looked
    split at looked
    · exact absurd looked List.not_mem_nil
    · obtain rfl := List.mem_singleton.mp looked
      rfl
  obtain ⟨c₁, split₁, alnum, -⟩ := Regex.mem_ways_one.mp first
  obtain ⟨c₂, split₂, two, -⟩ := Regex.mem_ways_one.mp second
  obtain ⟨c₃, split₃, three, -⟩ := Regex.mem_ways_one.mp third
  obtain ⟨text, split₄, every, -⟩ := Regex.mem_ways_many.mp run
  have one : isIdChar c₁ = true := by
    unfold isIdChar
    rw [alnum]
    rfl
  have whole : cited = c₁ :: c₂ :: c₃ :: text ++ w₅.rest := by
    rw [← same, split₁, split₂, split₃, split₄]
    rfl
  have empty : w₅.rest = [] := by
    rcases List.mem_append.mp ended with atEnd | newline
    · unfold Regex.ways at atEnd
      split_ifs at atEnd with nothing
      · exact List.isEmpty_iff.mp nothing
      · exact absurd atEnd List.not_mem_nil
    · -- a newline at the end would be space at the end
      unfold Regex.ways at newline
      split at newline
      · exact absurd newline List.not_mem_nil
      · rename_i u others here
        have inside : u ∈ (Regex.all [exactly "\n", Regex.atEnd]).ways w₅ := by simp [here]
        obtain ⟨x, line, atEnd⟩ := Regex.mem_ways_seq.mp inside
        obtain ⟨y, atEnd, -⟩ := Regex.mem_ways_seq.mp atEnd
        obtain ⟨split, -⟩ := mem_ways_exactly.mp line
        unfold Regex.ways at atEnd
        split_ifs at atEnd with nothing
        · rw [List.isEmpty_iff.mp nothing, List.append_nil] at split
          have last := trimmed (by rw [whole]; exact List.cons_ne_nil _ _)
          have newline : "\n".toList = ['\n'] := rfl
          have ends : cited = (c₁ :: c₂ :: c₃ :: text) ++ ['\n'] := by
            rw [whole, split, newline]
          have space : cited.getLast (by rw [whole]; exact List.cons_ne_nil _ _) = '\n' := by
            simp only [ends, List.getLast_concat]
          rw [space] at last
          exact absurd last (by decide)
        · exact absurd atEnd List.not_mem_nil
  rw [empty, List.append_nil] at whole
  rw [whole]
  refine ⟨List.cons_ne_nil _ _, ?_⟩
  simp only [List.forall_mem_cons]
  exact ⟨one, two, three, every⟩

/-- What `strip` leaves does not end in space. -/
theorem strip_trimmed (text : List Char) (full : strip text ≠ []) :
    isSpace ((strip text).getLast full) = false :=
  Bool.eq_false_iff.mpr (List.rdropWhile_last_not isSpace (text.dropWhile isSpace) full)

/-- What `inner` does after the id part. -/
def closing : Regex Char := .all [citedStamp, .many isSpace, .atEnd]

theorem eq_of_mem_closing {w v : Way Char} (member : v ∈ closing.ways w) : v = ⟨[], w.groups⟩ := by
  obtain ⟨w₁, first, member⟩ := Regex.mem_ways_seq.mp member
  obtain ⟨w₂, second, member⟩ := Regex.mem_ways_seq.mp member
  obtain ⟨w₃, third, member⟩ := Regex.mem_ways_seq.mp member
  obtain rfl := List.mem_singleton.mp member
  obtain ⟨-, -, -, same₁⟩ := mem_ways_citedStamp first
  obtain ⟨-, -, -, same₂⟩ := Regex.mem_ways_many.mp second
  unfold Regex.ways at third
  split_ifs at third with ended
  · obtain rfl := List.mem_singleton.mp third
    obtain ⟨rest, groups⟩ := v
    obtain rfl : rest = [] := List.isEmpty_iff.mp ended
    obtain rfl : groups = w.groups := same₂.trans same₁
    rfl
  · exact absurd third List.not_mem_nil

/-- A stamp after the id is read over. -/
theorem closing_leads {stamped : List Char} (free : BracketFree stamped)
    (groups : List (Nat × List Char)) :
    closing.Leads ⟨" @ ".toList ++ stamped, groups⟩ ⟨[], groups⟩ := by
  have space : ∀ c ∈ [' '], isSpace c = true := by simp [isSpace, isSpaceCode]
  have member : (⟨[], groups⟩ : Way Char) ∈ closing.ways ⟨" @ ".toList ++ stamped, groups⟩ := by
    refine Regex.mem_ways_seq.mpr ⟨⟨[], groups⟩, List.mem_append.mpr (Or.inl ?_), ?_⟩
    · refine Regex.mem_ways_seq.mpr ⟨⟨'@' :: ' ' :: stamped, groups⟩,
        Regex.mem_ways_many.mpr ⟨[' '], rfl, space, rfl⟩, ?_⟩
      refine Regex.mem_ways_seq.mpr ⟨⟨' ' :: stamped, groups⟩,
        mem_ways_exactly.mpr ⟨rfl, rfl⟩, ?_⟩
      refine Regex.mem_ways_seq.mpr ⟨⟨stamped, groups⟩,
        Regex.mem_ways_many.mpr ⟨[' '], rfl, space, rfl⟩, ?_⟩
      exact Regex.mem_ways_seq.mpr ⟨⟨[], groups⟩,
        Regex.mem_ways_few.mpr ⟨stamped, by simp, free, rfl⟩, List.mem_singleton_self _⟩
    · exact Regex.mem_ways_seq.mpr ⟨⟨[], groups⟩, Regex.mem_ways_many.mpr ⟨[], rfl, by simp, rfl⟩,
        List.mem_singleton_self _⟩
  obtain ⟨v, later, here⟩ := List.exists_cons_of_ne_nil (List.ne_nil_of_mem member)
  have inside : v ∈ closing.ways ⟨" @ ".toList ++ stamped, groups⟩ := by
    rw [here]
    exact List.mem_cons_self
  unfold Regex.Leads
  rw [here, eq_of_mem_closing inside]
  rfl

/-- In the middle of an id nothing closes. -/
theorem closing_stuck {d : Char} (idChar : isIdChar d = true) (rest : List Char)
    (groups : List (Nat × List Char)) : closing.ways ⟨d :: rest, groups⟩ = [] := by
  have stop : ∀ {w : Way Char}, w ∈ (Regex.many isSpace).ways ⟨d :: rest, groups⟩ →
      w.rest = d :: rest := by
    intro w run
    obtain ⟨gap, split, spaces, -⟩ := Regex.mem_ways_many.mp run
    cases gap with
    | nil => exact split.symm
    | cons c gap =>
      have space : isSpace d = true := by
        rw [(List.cons.inj split).1]
        exact spaces c List.mem_cons_self
      rw [isSpace_of_isIdChar idChar] at space
      exact absurd space (by simp)
  rw [List.eq_nil_iff_forall_not_mem]
  intro v member
  obtain ⟨w₁, first, member⟩ := Regex.mem_ways_seq.mp member
  obtain ⟨w₂, second, member⟩ := Regex.mem_ways_seq.mp member
  obtain ⟨w₃, third, -⟩ := Regex.mem_ways_seq.mp member
  rcases List.mem_append.mp first with stamped | none
  · obtain ⟨x, run, stamped⟩ := Regex.mem_ways_seq.mp stamped
    obtain ⟨y, sign, -⟩ := Regex.mem_ways_seq.mp stamped
    have split := (mem_ways_exactly.mp sign).1
    rw [stop run] at split
    obtain rfl : d = '@' := (List.cons.inj split).1
    exact absurd idChar (by decide)
  · obtain rfl := List.mem_singleton.mp none
    have left := stop second
    unfold Regex.ways at third
    rw [left] at third
    exact absurd third (by simp)

/-- **A citation with its stamp is of the id it names.** -/
theorem idPart_exact {cited stamped : List Char} (full : cited ≠ [])
    (ids : ∀ c ∈ cited, isIdChar c = true) (free : BracketFree stamped) :
    BracketFree (cited ++ " @ ".toList ++ stamped) ∧
      idPart (cited ++ " @ ".toList ++ stamped) = cited := by
  obtain ⟨c, cs, rfl⟩ := List.exists_cons_of_ne_nil full
  have plain : BracketFree (c :: cs) := fun d inside => notBracket_of_isIdChar (ids d inside)
  have sign : BracketFree " @ ".toList := List.all_eq_true.mp (by decide)
  have whole : BracketFree (c :: cs ++ " @ ".toList ++ stamped) := by
    rw [BracketFree.append, BracketFree.append]
    exact ⟨⟨plain, sign⟩, free⟩
  have leads : inner.Leads ⟨c :: cs ++ (" @ ".toList ++ stamped), []⟩ ⟨[], [(2, c :: cs)]⟩ := by
    refine Regex.Leads.groupSomeFew plain ?_ (closing_leads free _)
    intro before d later split
    refine closing_stuck (ids d ?_) _ _
    rw [split]
    simp
  have other := inner_leads (by simp) whole []
  rw [List.append_assoc] at other
  have same := Option.some.inj (leads.symm.trans other)
  rw [List.append_assoc]
  exact ⟨by rw [← List.append_assoc]; exact whole, (congrArg (fun w => ((w.groups.lookup 2).getD [])) same).symm⟩

/-- A stamp holds no brackets. -/
theorem stamp_free (ts : Clock) : BracketFree (stamp ts) := by
  have number : ∀ width n, BracketFree (padded width n) := by
    intro width n c member
    have digit : c.isDigit = true := by
      unfold padded List.leftpad at member
      rcases List.mem_append.mp member with nought | digit
      · rw [(List.mem_replicate.mp nought).2]
        rfl
      · exact Nat.isDigit_of_mem_toDigits (by decide) (by decide) digit
    refine notBracket_of_isIdChar ?_
    unfold isIdChar Char.isAlphanum
    rw [digit]
    simp
  have marked : ∀ {c : Char} (n : Nat), notBracket c = true → BracketFree (c :: padded 2 n) :=
    fun n passes => List.forall_mem_cons.mpr ⟨passes, number 2 n⟩
  unfold stamp
  simp only [BracketFree.append]
  exact ⟨⟨⟨⟨⟨number _ _, marked _ rfl⟩, marked _ rfl⟩, marked _ rfl⟩, marked _ rfl⟩, marked _ rfl⟩

/-! ### What the check does with a match -/

/-- The id of a citation is shaped like one. -/
def IdShaped (content : List Char) : Prop := (idShaped.first (strip (idPart content))).isSome

/-- **A fabricated citation**: shaped like an id, but of no piece of evidence. -/
def Fabricated (hits : List Cited) (content : List Char) : Prop :=
  content ≠ [] ∧ BracketFree content ∧ IdShaped content ∧
    ∀ hit ∈ hits, hit.eventId ≠ strip (idPart content)

/-- **The citation of a piece of evidence**, with that event's own timestamp. -/
def Genuine (hits : List Cited) (content : List Char) : Prop :=
  ∃ hit ∈ hits, hit.eventId = strip (idPart content) ∧
    content = hit.eventId ++ " @ ".toList ++ stamp hit.ts

theorem allowed_append (hits : List Cited) (hit : Cited) (cited : List Char) :
    (allowed (hits ++ [hit])).get cited =
      if cited = hit.eventId then some (stamp hit.ts) else (allowed hits).get cited := by
  unfold allowed
  rw [List.foldl_append, List.foldl_cons, List.foldl_nil, Dict.get_set]

theorem allowed_some {hits : List Cited} {cited stamped : List Char}
    (found : (allowed hits).get cited = some stamped) :
    ∃ hit ∈ hits, hit.eventId = cited ∧ stamp hit.ts = stamped := by
  induction hits using List.reverseRecOn with
  | nil => exact absurd found (by simp [allowed, Dict.get])
  | append_singleton hits hit ih =>
    rw [allowed_append] at found
    split_ifs at found with same
    · exact ⟨hit, by simp, same.symm, Option.some.inj found⟩
    · obtain ⟨other, member, rest⟩ := ih found
      exact ⟨other, List.mem_append.mpr (Or.inl member), rest⟩

theorem allowed_none {hits : List Cited} {cited : List Char} :
    (allowed hits).get cited = none ↔ ∀ hit ∈ hits, hit.eventId ≠ cited := by
  induction hits using List.reverseRecOn with
  | nil => simp [allowed, Dict.get]
  | append_singleton hits hit ih =>
    rw [allowed_append, List.forall_mem_append, ← ih, List.forall_mem_singleton]
    split_ifs with same
    · simp [same]
    · simp [Ne.symm same]

/-- A fabricated citation is dropped. -/
theorem keep_fabricated {hits : List Cited} {content : List Char}
    (fabricated : Fabricated hits content) (gap : List Char) :
    keep (allowed hits) (pairMatch gap content) = [] := by
  obtain ⟨-, -, shaped, others⟩ := fabricated
  have captured : ((pairMatch gap content).group 2).getD [] = idPart content := rfl
  have skip : (idShaped.first (strip (idPart content))).isNone = false := by
    rw [← Option.not_isSome, shaped]
    rfl
  unfold keep
  simp only [captured, skip, allowed_none.mpr others]
  rfl

/-- **What a match becomes**: it is kept, dropped or rewritten. -/
theorem keep_pairMatch (hits : List Cited) {gap content : List Char} (full : content ≠ [])
    (free : BracketFree content) :
    (¬ IdShaped content ∧ keep (allowed hits) (pairMatch gap content) =
        gap ++ '[' :: content ++ [']']) ∨
      (Fabricated hits content ∧ keep (allowed hits) (pairMatch gap content) = []) ∨
      ∃ genuine, BracketFree genuine ∧ Genuine hits genuine ∧
        keep (allowed hits) (pairMatch gap content) = gap ++ '[' :: genuine ++ [']'] := by
  by_cases shaped : (idShaped.first (strip (idPart content))).isSome
  · cases found : (allowed hits).get (strip (idPart content)) with
    | none =>
      have fabricated : Fabricated hits content := ⟨full, free, shaped, allowed_none.mp found⟩
      exact Or.inr (Or.inl ⟨fabricated, keep_fabricated fabricated gap⟩)
    | some stamped =>
      obtain ⟨hit, member, same, rfl⟩ := allowed_some found
      obtain ⟨some, ids⟩ := isIdChar_of_idShaped shaped (strip_trimmed _)
      obtain ⟨free', part⟩ := idPart_exact some ids (stamp_free hit.ts)
      have trimmed : strip (strip (idPart content)) = strip (idPart content) :=
        strip_of_clear fun c inside => isSpace_of_isIdChar (ids c inside)
      have skip : (idShaped.first (strip (idPart content))).isNone = false := by
        rw [← Option.not_isSome, shaped]
        rfl
      have captured : ((pairMatch gap content).group 2).getD [] = idPart content := rfl
      have lead : ((pairMatch gap content).group 1).getD [] = gap := rfl
      refine Or.inr (Or.inr ⟨_, free', ⟨hit, member, ?_, ?_⟩, ?_⟩)
      · rw [part, trimmed, same]
      · rw [same]
      · unfold keep
        simp only [captured, lead, skip, found]
        simp
  · refine Or.inl ⟨shaped, ?_⟩
    have captured : ((pairMatch gap content).group 2).getD [] = idPart content := rfl
    have none : (idShaped.first (strip (idPart content))).isNone = true := by
      rw [← Option.not_isSome]
      simpa using shaped
    unfold keep
    rw [captured, if_pos none]
    rfl

/-! ### Brackets in a text -/

/-- The first bracket of a text is where it is. -/
theorem free_split {a b y z : List Char} {c d : Char} (left : BracketFree a) (right : BracketFree b)
    (isBracket : notBracket c = false) (isBracket' : notBracket d = false)
    (eq : a ++ c :: y = b ++ d :: z) : a = b ∧ c = d ∧ y = z := by
  have first : a = b := by
    have taken := congrArg (List.takeWhile notBracket) eq
    rw [List.takeWhile_append_of_pos left, List.takeWhile_append_of_pos right,
      List.takeWhile_cons_of_neg (by simp [isBracket]),
      List.takeWhile_cons_of_neg (by simp [isBracket']), List.append_nil, List.append_nil] at taken
    exact taken
  rw [first] at eq
  obtain ⟨same, rest⟩ := List.cons.inj (List.append_cancel_left eq)
  exact ⟨first, same, rest⟩

theorem spaces_free {gap : List Char} (spaces : ∀ c ∈ gap, isSpace c = true) : BracketFree gap :=
  fun c inside => notBracket_of_isSpace (spaces c inside)

/-- Every citation of a text stands in it. -/
theorem of_mem_findAll {text : List Char} {m : Regex.Match Char} (member : m ∈ citation.findAll text) :
    ∃ before gap content after, content ≠ [] ∧ BracketFree content ∧ m = pairMatch gap content ∧
      text = before ++ '[' :: content ++ ']' :: after := by
  obtain ⟨piece, inside, isHit⟩ := List.mem_filterMap.mp member
  cases piece with
  | plain c => exact absurd isHit (by simp [Regex.Piece.match?])
  | hit m' =>
    obtain rfl := Option.some.inj isHit
    obtain ⟨first, later, split⟩ := List.append_of_mem inside
    obtain ⟨rest, source, scanned⟩ := Regex.scan_suffix split
    obtain ⟨after, found, -⟩ := Regex.scan_eq_hit scanned.symm
    obtain ⟨gap, content, -, full, free, here, same⟩ := citation_first_iff.mp found
    refine ⟨first.flatMap Regex.Piece.source ++ gap, gap, content, after, full, free, same, ?_⟩
    rw [source, here]
    simp

/-- Every pair of brackets with nothing but text in it is found. -/
theorem pair_found {before content after : List Char} (full : content ≠ [])
    (free : BracketFree content) :
    ∃ gap, pairMatch gap content ∈ citation.findAll (before ++ '[' :: content ++ ']' :: after) := by
  have source := Regex.scan_source citation (before ++ '[' :: content ++ ']' :: after)
  rw [List.append_assoc] at source
  obtain ⟨first, piece, later, u, v, split, here, -, right⟩ := Regex.flatMap_split source
  obtain ⟨rest, -, scanned⟩ := Regex.scan_suffix split
  have none : ∀ c ∈ ([] : List Char), isSpace c = true := by simp
  cases piece with
  | plain c =>
    -- a bracket with its pair is no plain character
    obtain ⟨tail, start, scanned', fails⟩ := Regex.scan_eq_plain scanned.symm
    have nothing : u = [] ∧ c = '[' ∧ v = [] := by
      have single : [c] = u ++ '[' :: v := here
      cases u with
      | nil =>
        obtain ⟨rfl, rfl⟩ := List.cons.inj single
        exact ⟨rfl, rfl, rfl⟩
      | cons d u => exact absurd (List.cons.inj single).2 (by simp)
    obtain ⟨rfl, rfl, rfl⟩ := nothing
    have tailIs : content ++ ']' :: after = tail := by
      rw [scanned', Regex.scan_source, List.nil_append] at right
      exact right
    have found := citation_first none full free after
    rw [List.nil_append, List.cons_append, tailIs, ← start] at found
    exact absurd (fails _ _ found) (by simp [pairMatch])
  | hit m =>
    obtain ⟨tail, found, -⟩ := Regex.scan_eq_hit scanned.symm
    obtain ⟨gap, content', spaces, full', free', start, rfl⟩ := citation_first_iff.mp found
    have text : gap ++ '[' :: (content' ++ [']']) = u ++ '[' :: v := by
      rw [← here]
      simp [Regex.Piece.source, pairMatch]
    have opened : '[' ∉ content' ++ [']'] := by
      rw [List.mem_append, not_or]
      exact ⟨free'.open_not_mem, by simp⟩
    obtain ⟨rfl, -, rfl⟩ := (List.append_cons_inj_of_notMem (spaces_free spaces).open_not_mem
      opened).mp text
    have closed : content ++ ']' :: after =
        content' ++ ']' :: later.flatMap Regex.Piece.source := by
      rw [List.append_assoc] at right
      exact right
    obtain ⟨rfl, -, -⟩ := free_split free free' rfl rfl closed
    refine ⟨gap, List.mem_filterMap.mpr ⟨.hit (pairMatch gap content), ?_, rfl⟩⟩
    rw [List.append_assoc, split]
    simp

/-! ### Where a fabricated citation goes, the text closes up -/

/-- **What closes up**: text in which every pair of brackets is a fabricated citation, and what is
left of it. The space in front of a citation goes with it. -/
inductive Collapses (hits : List Cited) : List Char → List Char → Prop
  | text {text : List Char} (free : BracketFree text) : Collapses hits text text
  | cut {before content after left : List Char} (free : BracketFree before)
      (fabricated : Fabricated hits content) (later : Collapses hits after left) :
      Collapses hits (before ++ '[' :: content ++ ']' :: after) (before.rdropWhile isSpace ++ left)

theorem Collapses.free {hits : List Cited} {inside left : List Char}
    (collapses : Collapses hits inside left) : BracketFree left := by
  induction collapses with
  | text free => exact free
  | cut free _ _ ih =>
    rw [BracketFree.append]
    exact ⟨fun c inside => free c ((List.rdropWhile_prefix isSpace _).subset inside), ih⟩

/-- No citation starts in text that no opening bracket follows but for space. -/
theorem fails_before {c d : Char} {text rest : List Char} (free : BracketFree (c :: text))
    (isBracket : notBracket d = false) (stop : d = ']' ∨ ∃ e ∈ c :: text, isSpace e = false) :
    citation.first (c :: text ++ d :: rest) = none := by
  rw [Option.eq_none_iff_forall_ne_some]
  rintro ⟨m, later⟩ found
  obtain ⟨gap, content, spaces, -, -, start, -⟩ := citation_first_iff.mp found
  rw [List.append_assoc] at start
  obtain ⟨rfl, rfl, -⟩ := free_split free (spaces_free spaces) isBracket rfl start
  rcases stop with close | ⟨e, member, visible⟩
  · exact absurd close (by decide)
  · rw [spaces e member] at visible
    exact absurd visible (by simp)

/-- No citation starts at an opening bracket that another one follows first. -/
theorem fails_nested {text rest : List Char} (free : BracketFree text) :
    citation.first ('[' :: text ++ '[' :: rest) = none := by
  rw [Option.eq_none_iff_forall_ne_some]
  rintro ⟨m, later⟩ found
  obtain ⟨gap, content, spaces, -, free', start, -⟩ := citation_first_iff.mp found
  cases gap with
  | nil =>
    have inner := (List.cons.inj start).2
    exact absurd (free_split free free' rfl rfl inner).2.1 (by decide)
  | cons c gap =>
    have space := spaces c List.mem_cons_self
    rw [← (List.cons.inj start).1] at space
    exact absurd space (by decide)

/-- What comes before an opening bracket without a pair is read alone. -/
theorem sameBefore_open {rest : List Char} (alone : citation.first ('[' :: rest) = none)
    (before : List Char) : citation.SameBefore ('[' :: rest) before := by
  rintro - c text -
  cases here : citation.first (c :: text) with
  | some hit =>
    obtain ⟨m, later⟩ := hit
    obtain ⟨gap, content, spaces, full, free, start, rfl⟩ := citation_first_iff.mp here
    rw [start, List.append_assoc _ (']' :: later), List.cons_append, citation_first spaces full free]
    rfl
  | none =>
    rw [Option.map_none, Option.eq_none_iff_forall_ne_some]
    rintro ⟨m, later⟩ found
    obtain ⟨gap, content, spaces, full, free, start, -⟩ := citation_first_iff.mp found
    have none : ∀ c ∈ ([] : List Char), isSpace c = true := by simp
    have whole : c :: text ++ '[' :: rest = (gap ++ '[' :: content ++ [']']) ++ later := by
      rw [start]
      simp
    have missed : ∀ tail, c :: text ≠ (gap ++ '[' :: content ++ [']']) ++ tail := by
      intro tail eq
      have match' := citation_first spaces full free tail
      rw [List.append_assoc _ [']']] at eq
      rw [show gap ++ '[' :: content ++ ']' :: tail = c :: text from eq.symm, here] at match'
      exact absurd match' (by simp)
    rcases List.append_eq_append_iff.mp whole with ⟨over', cut, after⟩ | ⟨tail, cut, -⟩
    · cases over' with
      | nil =>
        rw [List.append_nil] at cut
        exact missed [] (by rw [List.append_nil, cut])
      | cons d over' =>
        -- the match would be of the bracket itself
        obtain ⟨rfl, after⟩ := List.cons.inj after
        have opened : '[' ∉ content ++ [']'] := by
          rw [List.mem_append, not_or]
          exact ⟨free.open_not_mem, by simp⟩
        have same : gap ++ '[' :: (content ++ [']']) = c :: text ++ '[' :: over' := by
          rw [← cut]
          simp
        obtain ⟨-, -, rfl⟩ := (List.append_cons_inj_of_notMem (spaces_free spaces).open_not_mem
          opened).mp same
        have match' := citation_first none full free later
        have closed : '[' :: (content ++ [']']) ++ later = [] ++ '[' :: content ++ ']' :: later := by
          simp
        rw [after, closed, match'] at alone
        exact absurd alone (by simp)
    · exact missed tail cut

/-- **What closes up in the answer closes up in the result.** -/
theorem Collapses.sub {hits : List Cited} {inside left : List Char}
    (collapses : Collapses hits inside left) (rest : List Char) :
    citation.sub (keep (allowed hits)) (inside ++ ']' :: rest) =
      left ++ citation.sub (keep (allowed hits)) (']' :: rest) := by
  induction collapses with
  | text free =>
    refine Regex.sub_append fun before c after split => ?_
    rw [split] at free
    exact fails_before (BracketFree.append.mp free).2 rfl (Or.inl rfl)
  | cut free fabricated later ih =>
    rename_i before content after left
    have spaces : ∀ c ∈ before.rtakeWhile isSpace, isSpace c = true := fun c inside =>
      List.mem_rtakeWhile_imp inside
    have cut : before ++ '[' :: content ++ ']' :: after ++ ']' :: rest = before.rdropWhile isSpace ++
        (before.rtakeWhile isSpace ++ '[' :: content ++ ']' :: (after ++ ']' :: rest)) := by
      conv_lhs => rw [← @List.rdropWhile_append_rtakeWhile _ isSpace before]
      simp only [List.append_assoc, List.cons_append]
    have copied : ∀ front c back, before.rdropWhile isSpace = front ++ c :: back →
        citation.first (c :: back ++ (before.rtakeWhile isSpace ++ '[' :: content ++
          ']' :: (after ++ ']' :: rest))) = none := by
      intro front c back split
      have visible : ∃ e ∈ c :: (back ++ before.rtakeWhile isSpace), isSpace e = false := by
        have some : before.rdropWhile isSpace ≠ [] := by
          rw [split]
          simp
        have last := List.rdropWhile_last_not isSpace before some
        have inside : (before.rdropWhile isSpace).getLast some ∈ c :: back := by
          have ends : (before.rdropWhile isSpace).getLast some =
              (c :: back).getLast (List.cons_ne_nil _ _) := by
            simp only [split]
            exact List.getLast_append_of_ne_nil _ _
          rw [ends]
          exact List.getLast_mem _
        refine ⟨_, ?_, Bool.eq_false_iff.mpr last⟩
        rw [← List.cons_append]
        exact List.mem_append.mpr (Or.inl inside)
      have plain : BracketFree (c :: (back ++ before.rtakeWhile isSpace)) := by
        have whole := free
        rw [← @List.rdropWhile_append_rtakeWhile _ isSpace before, split, List.append_assoc,
          BracketFree.append] at whole
        exact whole.2
      have fails := @fails_before c '[' _ (content ++ ']' :: (after ++ ']' :: rest)) plain rfl
        (Or.inr visible)
      simp only [List.append_assoc, List.cons_append] at fails ⊢
      exact fails
    rw [cut, Regex.sub_append copied,
      Regex.sub_hit (citation_first spaces fabricated.1 fabricated.2.1 _) (by simp [pairMatch]),
      keep_fabricated fabricated, ih, List.nil_append, List.append_assoc]

/-- No citation starts at a closing bracket. -/
theorem fails_close (rest : List Char) : citation.first (']' :: rest) = none := by
  rw [Option.eq_none_iff_forall_ne_some]
  rintro ⟨m, later⟩ found
  obtain ⟨gap, content, spaces, -, -, start, -⟩ := citation_first_iff.mp found
  have none : BracketFree [] := fun c inside => absurd inside List.not_mem_nil
  rw [List.append_assoc] at start
  obtain ⟨-, same, -⟩ := @free_split [] gap _ _ _ _ none (spaces_free spaces) rfl rfl start
  exact absurd same (by decide)

/-- **A pair of brackets around what closes up** is a pair around what is left. -/
theorem verifyCitations_closes {hits : List Cited} {inside left : List Char}
    (collapses : Collapses hits inside left) (shrinks : inside ≠ left) (before after : List Char) :
    verifyCitations (before ++ '[' :: inside ++ ']' :: after) hits =
      verifyCitations before hits ++ '[' :: left ++ ']' :: verifyCitations after hits := by
  have alone : citation.first ('[' :: inside ++ ']' :: after) = none := by
    cases collapses with
    | text free => exact absurd rfl shrinks
    | cut free fabricated later =>
      rename_i front content behind rest
      have nested := @fails_nested front (content ++ ']' :: behind ++ ']' :: after) free
      simp only [List.append_assoc, List.cons_append] at nested ⊢
      exact nested
  unfold verifyCitations
  rw [List.append_assoc, List.cons_append] at *
  rw [Regex.sub_extend (sameBefore_open alone before), Regex.sub_plain alone, collapses.sub,
    Regex.sub_plain (fails_close after)]
  simp only [List.append_assoc, List.cons_append]

/-- **The pair of a bracket in the result** comes from a stretch of the answer that closes up. -/
theorem collapses_of_pair {hits : List Cited} {source content after : List Char}
    (free : BracketFree content)
    (eq : citation.sub (keep (allowed hits)) source = content ++ ']' :: after) :
    ∃ inside rest, source = inside ++ ']' :: rest ∧ Collapses hits inside content := by
  suffices pieces : ∀ pieces, ∀ source content, BracketFree content →
      citation.scan 0 source = pieces →
      pieces.flatMap (Regex.Piece.replaced (keep (allowed hits))) = content ++ ']' :: after →
      ∃ inside rest, source = inside ++ ']' :: rest ∧ Collapses hits inside content from
    pieces _ source content free rfl eq
  clear eq free source content
  intro pieces
  induction pieces with
  | nil =>
    intro source content _ _ eq
    exact absurd eq (by simp)
  | cons piece pieces ih =>
    intro source content free scanned eq
    rw [List.flatMap_cons] at eq
    cases piece with
    | plain c =>
      obtain ⟨rest, rfl, scanned', fails⟩ := Regex.scan_eq_plain scanned
      cases content with
      | nil =>
        obtain ⟨rfl, -⟩ := List.cons.inj eq
        exact ⟨[], rest, rfl, .text free⟩
      | cons d content =>
        obtain ⟨rfl, tail⟩ := List.cons.inj eq
        obtain ⟨passes, free⟩ := List.forall_mem_cons.mp free
        obtain ⟨inside, last, rfl, collapses⟩ := ih rest content free scanned'.symm tail
        refine ⟨c :: inside, last, rfl, ?_⟩
        cases collapses with
        | text _ => exact .text (List.forall_mem_cons.mpr ⟨passes, free⟩)
        | cut front fabricated later =>
          rename_i before cited behind left whole
          -- were it all space up to the citation, it would be part of the match
          have visible : ∃ e ∈ c :: before, isSpace e = false := by
            by_contra spaces
            have every : ∀ e ∈ c :: before, isSpace e = true := fun e inside =>
              Bool.of_not_eq_false fun clear => spaces ⟨e, inside, clear⟩
            have found := citation_first every fabricated.1 fabricated.2.1 (behind ++ ']' :: last)
            simp only [List.append_assoc, List.cons_append] at found fails
            exact absurd (fails _ _ found) (by simp [pairMatch])
          have cut := Collapses.cut (List.forall_mem_cons.mpr ⟨passes, front⟩) fabricated later
          rw [rdropWhile_cons visible] at cut
          exact cut
    | hit m =>
      obtain ⟨rest, found, scanned'⟩ := Regex.scan_eq_hit scanned
      obtain ⟨gap, cited, spaces, full, free', start, rfl⟩ := citation_first_iff.mp found
      rw [Regex.Piece.replaced] at eq
      have brackets : ∀ text, keep (allowed hits) (pairMatch gap cited) ≠
          gap ++ '[' :: text ++ [']'] := by
        intro text became
        rw [became, List.append_assoc, List.append_assoc, List.cons_append] at eq
        have isBracket : notBracket '[' = false := rfl
        have isBracket' : notBracket ']' = false := rfl
        have clash := (free_split (spaces_free spaces) free isBracket isBracket' eq).2.1
        exact absurd clash (by decide)
      rcases @keep_pairMatch hits gap cited full free' with
        ⟨-, kept⟩ | ⟨fabricated, dropped⟩ | ⟨text, -, -, rewritten⟩
      · exact absurd kept (brackets _)
      · rw [dropped, List.nil_append] at eq
        obtain ⟨inside, last, same, collapses⟩ := ih rest content free scanned'.symm eq
        refine ⟨gap ++ '[' :: cited ++ ']' :: inside, last, ?_, ?_⟩
        · rw [start, same]
          simp
        · have cut := Collapses.cut (spaces_free spaces) fabricated collapses
          rw [List.rdropWhile_eq_nil_iff.mpr spaces, List.nil_append] at cut
          exact cut
      · exact absurd rewritten (brackets _)

/-! ### The citations of the result -/

/-- **No fabricated citation survives**: every citation that is shaped like an id names a piece of the
evidence and reads exactly `[event_id @ T]`, with that event's own timestamp. -/
def Verified (hits : List Cited) (output : List Char) : Prop :=
  ∀ m ∈ citation.findAll output, (idShaped.first (strip ((m.group 2).getD []))).isSome →
    ∃ hit ∈ hits, hit.eventId = strip ((m.group 2).getD []) ∧
      m.text = (m.group 1).getD [] ++ '[' :: hit.eventId ++ " @ ".toList ++ stamp hit.ts ++ [']']

/-- **A trap**: a pair of brackets that is no citation, but becomes a forged one when the fabricated
citations in it go. -/
def Trapped (hits : List Cited) (answer : List Char) : Prop :=
  ∃ before inside after left, answer = before ++ '[' :: inside ++ ']' :: after ∧
    Collapses hits inside left ∧ inside ≠ left ∧ left ≠ [] ∧ IdShaped left ∧ ¬ Genuine hits left

/-- What a citation says of its text. -/
theorem genuine_iff {hits : List Cited} {gap content : List Char} :
    Genuine hits content ↔ ∃ hit ∈ hits,
      hit.eventId = strip (((pairMatch gap content).group 2).getD []) ∧
      (pairMatch gap content).text = ((pairMatch gap content).group 1).getD [] ++
        '[' :: hit.eventId ++ " @ ".toList ++ stamp hit.ts ++ [']'] := by
  have captured : ((pairMatch gap content).group 2).getD [] = idPart content := rfl
  have lead : ((pairMatch gap content).group 1).getD [] = gap := rfl
  have text : (pairMatch gap content).text = gap ++ '[' :: content ++ [']'] := rfl
  unfold Genuine
  rw [captured, lead, text]
  refine exists_congr fun hit => and_congr_right fun _ => and_congr_right fun _ => ?_
  simp only [List.append_assoc, List.cons_append, List.append_cancel_left_eq, List.cons.injEq,
    true_and]
  constructor
  · rintro rfl
    simp
  · intro same
    have cut : content ++ [']'] = (hit.eventId ++ (" @ ".toList ++ stamp hit.ts)) ++ [']'] := by
      rw [same]
      simp
    exact List.append_cancel_right cut

/-- **The check lets a forged citation through exactly when the answer sets a trap.** -/
theorem verifyCitations_verified_iff (answer : List Char) (hits : List Cited) :
    Verified hits (verifyCitations answer hits) ↔ ¬ Trapped hits answer := by
  constructor
  · rintro verified ⟨before, inside, after, left, rfl, collapses, shrinks, full, shaped, forged⟩
    rw [verifyCitations_closes collapses shrinks] at verified
    obtain ⟨gap, found⟩ := @pair_found (verifyCitations before hits) left
      (verifyCitations after hits) full collapses.free
    exact forged (genuine_iff.mpr (verified _ found shaped))
  · intro safe m found shaped
    obtain ⟨before, gap, content, after, full, free, rfl, output⟩ := of_mem_findAll found
    rw [← genuine_iff]
    have shaped' : IdShaped content := shaped
    unfold verifyCitations Regex.sub at output
    rw [List.append_assoc] at output
    obtain ⟨first, piece, later, u, v, split, here, -, right⟩ := Regex.flatMap_split output
    obtain ⟨rest, source, scanned⟩ := Regex.scan_suffix split
    cases piece with
    | plain c =>
      -- the bracket was there in the answer, and its pair too
      obtain ⟨tail, rfl, scanned', fails⟩ := Regex.scan_eq_plain scanned.symm
      have nothing : c = '[' ∧ v = [] := by
        have single : [c] = u ++ '[' :: v := here
        cases u with
        | nil =>
          obtain ⟨rfl, rfl⟩ := List.cons.inj single
          exact ⟨rfl, rfl⟩
        | cons d u => exact absurd (List.cons.inj single).2 (by simp)
      obtain ⟨rfl, rfl⟩ := nothing
      rw [List.nil_append, scanned'] at right
      obtain ⟨inside, last, rfl, collapses⟩ := collapses_of_pair free right.symm
      by_contra forged
      refine safe ⟨first.flatMap Regex.Piece.source, inside, last, content, ?_, collapses, ?_, full,
        shaped', forged⟩
      · rw [source, List.append_assoc, List.cons_append]
      · intro same
        have none : ∀ c ∈ ([] : List Char), isSpace c = true := by simp
        have pair := citation_first none full free last
        rw [same] at fails
        exact absurd (fails _ _ pair) (by simp [pairMatch])
    | hit m =>
      obtain ⟨tail, start, -⟩ := Regex.scan_eq_hit scanned.symm
      obtain ⟨gap', cited, spaces, full', free', -, rfl⟩ := citation_first_iff.mp start
      rw [Regex.Piece.replaced] at here
      -- what the check writes is one pair of brackets
      have only : ∀ text, BracketFree text → keep (allowed hits) (pairMatch gap' cited) =
          gap' ++ '[' :: text ++ [']'] → content = text := by
        intro text plain became
        have opened : '[' ∉ text ++ [']'] := by
          rw [List.mem_append, not_or]
          exact ⟨plain.open_not_mem, by simp⟩
        rw [became, List.append_assoc, List.cons_append] at here
        obtain ⟨-, -, rfl⟩ := (List.append_cons_inj_of_notMem (spaces_free spaces).open_not_mem
          opened).mp here
        have closed : content ++ ']' :: after = text ++ ']' :: later.flatMap
            (Regex.Piece.replaced (keep (allowed hits))) := by
          rw [List.append_assoc] at right
          exact right
        exact (free_split free plain rfl rfl closed).1
      rcases @keep_pairMatch hits gap' cited full' free' with
        ⟨prose, kept⟩ | ⟨-, dropped⟩ | ⟨text, plain, genuine, rewritten⟩
      · rw [only cited free' kept] at shaped'
        exact absurd shaped' prose
      · rw [dropped] at here
        exact absurd here (by simp)
      · rw [only text plain rewritten]
        exact genuine

theorem evidence_fits : Fits 2026 8 18 12 0 0 0 := by decide

/-- One event, at noon of 18 August 2026. -/
def evidence : List Cited :=
  [{ eventId := "github:abc:123".toList
     ts := ⟨2026, 8, 18, 12, 0, 0, 0, evidence_fits⟩ }]

/-- **A citation around a citation**: the inner one goes, and what is left is a citation. -/
theorem nested_citation_survives :
    ¬ Verified evidence (verifyCitations "Down [[made:up:1] made:up:2].".toList evidence) := by
  intro verified
  have found : (⟨" [ made:up:2]".toList, [(2, " made:up:2".toList), (1, " ".toList)]⟩ :
      Regex.Match Char) ∈
      citation.findAll (verifyCitations "Down [[made:up:1] made:up:2].".toList evidence) := by
    decide +kernel
  obtain ⟨hit, member, same, -⟩ := verified _ found (by decide +kernel)
  obtain rfl := List.mem_singleton.mp member
  exact absurd same (by decide +kernel)

end Freshet.Rag
