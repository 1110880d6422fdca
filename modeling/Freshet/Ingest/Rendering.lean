/-
**Does parsing undo Statuspage's rendering?** Only where no text has an angle bracket that could open a
tag.

The provider escapes a text, and the parser unescapes the whole content before it looks for blocks and
tags, so markup that a text merely mentions is markup again. `undoes_iff` says exactly which texts
come back: those in which every `<` is directly followed by `>` (`harmless`).
-/

import Freshet.Ingest.BadEntry
import Freshet.Ingest.Identity
import Freshet.Lib.Words

namespace Freshet.Ingest

open Freshet.Lib

/-! ### Texts that hold no tag -/

/-- Every `<` is directly followed by `>`, which `_TAG` does not match. -/
def harmless : List Char → Bool
  | [] => true
  | c :: cs => (c != '<' || cs.head? == some '>') && harmless cs

theorem harmless_cons {c : Char} {cs : List Char} :
    harmless (c :: cs) = true ↔ (c = '<' → cs.head? = some '>') ∧ harmless cs = true := by
  rw [harmless, Bool.and_eq_true, Bool.or_eq_true, bne_iff_ne, beq_iff_eq]
  refine and_congr_left fun _ => ⟨fun either same => either.resolve_left (not_not.mpr same), ?_⟩
  intro implies
  by_cases same : c = '<'
  · exact Or.inr (implies same)
  · exact Or.inl same

/-- A space cuts a text into parts that are harmless on their own. -/
theorem harmless_append_space (before : List Char) {c : Char} (after : List Char)
    (space : isSpace c = true) : harmless (before ++ c :: after) = true ↔
      harmless before = true ∧ harmless after = true := by
  have open' : c ≠ '<' := by
    rintro rfl
    exact absurd space (by decide)
  have close : c ≠ '>' := by
    rintro rfl
    exact absurd space (by decide)
  induction before with
  | nil =>
    rw [List.nil_append, harmless_cons]
    simp [harmless, open']
  | cons d before ih =>
    rw [List.cons_append, harmless_cons, harmless_cons, and_assoc]
    refine and_congr ?_ ih
    cases before with
    | nil => simp [close]
    | cons e before => rfl

theorem harmless_wordsFrom (current text : List Char) : harmless (current ++ text) = true ↔
    ∀ word ∈ wordsFrom current text, harmless word = true := by
  induction text generalizing current with
  | nil =>
    rw [List.append_nil]
    unfold wordsFrom
    split_ifs with empty
    · simp [empty, harmless]
    · simp
  | cons c cs ih =>
    cases space : isSpace c with
    | true =>
      rw [harmless_append_space _ _ space, wordsFrom_space _ _ space, List.forall_mem_append]
      have tail := ih []
      rw [List.nil_append] at tail
      rw [tail]
      refine and_congr_left fun _ => ?_
      unfold wordsFrom
      split_ifs with empty
      · simp [empty, harmless]
      · simp
    | false =>
      rw [wordsFrom_letter _ _ space, ← ih, List.append_assoc, List.singleton_append]

/-- **A text is harmless when its words are**, so space does not matter. -/
theorem harmless_collapse (text : List Char) : harmless (collapse text) = harmless text := by
  have every : ∀ text, harmless text = true ↔ ∀ word ∈ words text, harmless word = true :=
    harmless_wordsFrom []
  rw [Bool.eq_iff_iff, every, every, words_collapse]

theorem collapse_dropWhile (text : List Char) : collapse (text.dropWhile isSpace) = collapse text := by
  rw [collapse_eq_unwords, words_dropWhile, ← collapse_eq_unwords]

theorem harmless_dropWhile (text : List Char) :
    harmless (text.dropWhile isSpace) = harmless text := by
  rw [← harmless_collapse, collapse_dropWhile, harmless_collapse]

/-! ### What `_TAG` takes out -/

/-- A tag begins with `<`. -/
theorem tag_first_of_ne {c : Char} (other : c ≠ '<') (cs : List Char) :
    tag.first (c :: cs) = none := by
  have none : (exactly "<").ways ⟨c :: cs, []⟩ = [] := by
    rw [List.eq_nil_iff_forall_not_mem]
    intro v member
    obtain ⟨split, -⟩ := mem_ways_exactly.mp member
    exact other (List.cons.inj split).1
  rw [Regex.first_eq_none]
  show ((exactly "<").ways ⟨c :: cs, []⟩).flatMap _ = []
  rw [none]
  rfl

/-- And is not empty. -/
theorem tag_first_of_close (cs : List Char) : tag.first ('<' :: '>' :: cs) = none :=
  Regex.first_eq_none.mpr rfl

/-- A `<` that is not directly closed, but later, is one. -/
theorem tag_first_of_open {cs : List Char} (open' : cs.head? ≠ some '>') (closed : '>' ∈ cs) :
    tag.first ('<' :: cs) ≠ none := by
  obtain ⟨inside, rest, rfl, clear⟩ := List.eq_append_cons_of_mem closed
  cases inside with
  | nil => exact absurd rfl open'
  | cons c inside =>
    have other : ∀ d ∈ c :: inside, (d != '>') = true := by
      intro d member
      rw [bne_iff_ne]
      rintro rfl
      exact clear member
    rw [List.forall_mem_cons] at other
    have leads : tag.Leads ⟨'<' :: (c :: inside ++ '>' :: rest), []⟩ ⟨rest, []⟩ := by
      refine @Regex.Leads.only Char (exactly "<") _ _ ⟨c :: inside ++ '>' :: rest, []⟩ _ rfl ?_
      refine .assoc (.only (if_pos other.1) ?_)
      refine .many other.2 (by rintro d ds ⟨⟩; rfl) ?_
      exact @Regex.Leads.only Char (exactly ">") _ _ ⟨rest, []⟩ _ rfl (Regex.leads_nothing _)
    intro none
    unfold Regex.Leads at leads
    rw [Regex.first_eq_none.mp none] at leads
    exact absurd leads nofun

/-- A tag has characters. -/
theorem tag_text_ne_nil {input rest : List Char} {m : Regex.Match Char}
    (found : tag.first input = some (m, rest)) : m.text ≠ [] := by
  intro empty
  have split := Regex.first_split found
  rw [empty, List.nil_append] at split
  obtain ⟨v, opened, later⟩ := Regex.mem_ways_seq.mp (Regex.mem_ways_of_first found)
  obtain ⟨here, -⟩ := mem_ways_exactly.mp opened
  obtain ⟨inside, suffix⟩ := Regex.ways_suffix later
  have longer : input.length = 1 + v.rest.length := by
    rw [show input = "<".toList ++ v.rest from here, List.length_append]
    rfl
  have shorter : v.rest.length = inside.length + rest.length := by
    rw [suffix, List.length_append]
  rw [split] at longer
  omega

/-- Harmless text is left alone. -/
theorem sub_harmless {text : List Char} (safe : harmless text = true) (rest : List Char) :
    tag.sub (fun _ => [' ']) (text ++ rest) = text ++ tag.sub (fun _ => [' ']) rest := by
  induction text with
  | nil => rfl
  | cons c text ih =>
    obtain ⟨here, later⟩ := harmless_cons.mp safe
    have none : tag.first (c :: (text ++ rest)) = none := by
      by_cases same : c = '<'
      · obtain ⟨tail, rfl⟩ := List.head?_eq_some_iff.mp (here same)
        rw [same]
        exact tag_first_of_close _
      · exact tag_first_of_ne same _
    rw [List.cons_append, Regex.sub_plain none, ih later, List.cons_append]

/-- **What is left of a text that ends in a tag is harmless**: nothing in it opens one. -/
theorem harmless_sub {text : List Char} (closed : ∀ c ∈ text.getLast?, c = '>') :
    harmless (tag.sub (fun _ => [' ']) text) = true := by
  induction size : text.length using Nat.strong_induction_on generalizing text with
  | _ n ih =>
    cases text with
    | nil => rfl
    | cons c cs =>
      have tail : ∀ suffix before : List Char, c :: cs = before ++ suffix → before ≠ [] →
          harmless (tag.sub (fun _ => [' ']) suffix) = true := by
        intro suffix before split full
        refine ih suffix.length ?_ ?_ rfl
        · rw [← size, split, List.length_append]
          have positive := List.length_pos_iff.mpr full
          omega
        · intro d last
          refine closed d ?_
          rw [split, List.getLast?_append, last]
          rfl
      cases found : tag.first (c :: cs) with
      | none =>
        rw [Regex.sub_plain found, harmless_cons]
        refine ⟨?_, tail cs [c] rfl (List.cons_ne_nil _ _)⟩
        rintro rfl
        have close : cs.head? = some '>' := by
          by_contra open'
          have ends : '>' ∈ cs := by
            cases cs with
            | nil => exact absurd (closed '<' rfl) (by decide)
            | cons d ds =>
              have last := List.getLast?_eq_some_getLast (List.cons_ne_nil d ds)
              have same := closed ((d :: ds).getLast (List.cons_ne_nil d ds)) (by
                rw [List.getLast?_cons_cons]
                exact last)
              rw [← same]
              exact List.getLast_mem _
          exact tag_first_of_open open' ends found
        obtain ⟨ds, rfl⟩ := List.head?_eq_some_iff.mp close
        rw [Regex.sub_plain (tag_first_of_ne (by decide) _)]
        rfl
      | some result =>
        obtain ⟨m, rest⟩ := result
        have full := tag_text_ne_nil found
        rw [Regex.sub_hit found full, List.singleton_append, harmless_cons]
        exact ⟨fun same => absurd same (by decide), tail rest m.text (Regex.first_split found) full⟩

/-- Taking tags out leaves no more `<` than there were. -/
theorem count_sub_le (text : List Char) :
    (tag.sub (fun _ => [' ']) text).count '<' ≤ text.count '<' := by
  have pieces : ∀ pieces : List (Regex.Piece Char),
      (pieces.flatMap (Regex.Piece.replaced fun _ => [' '])).count '<' ≤
        (pieces.flatMap Regex.Piece.source).count '<' := by
    intro pieces
    induction pieces with
    | nil => exact le_refl _
    | cons piece later ih =>
      rw [List.flatMap_cons, List.flatMap_cons, List.count_append, List.count_append]
      refine Nat.add_le_add ?_ ih
      cases piece with
      | plain c => exact le_refl _
      | hit m => exact Nat.zero_le _
  have whole := pieces (tag.scan 0 text)
  rw [Regex.scan_source] at whole
  exact whole

theorem count_collapse (text : List Char) : (collapse text).count '<' = text.count '<' := by
  have visible : ∀ text : List Char,
      (text.filter fun c => !isSpace c).count '<' = text.count '<' := fun text =>
    List.count_filter (by decide)
  rw [← visible, filter_collapse, visible]

/-! ### One update -/

/-- **An update as the provider has it**: when it was posted and its status, as Statuspage writes them,
and its visible text, which may be any. -/
structure Posting where
  time : List Char
  status : List Char
  visible : List Char
  timeEnds : Lacks "</small>" time
  statusEnds : Lacks "</strong>" status
  timeClear : '&' ∉ time
  statusClear : '&' ∉ status

namespace Posting

variable (posting : Posting)

/-- The update up to its text. -/
def head (posting : Posting) (rest : List Char) : List Char :=
  "<small>".toList ++ (posting.time ++ ("</small><br><strong>".toList ++ (posting.status ++
    ("</strong> - ".toList ++ rest))))

/-- `<p><small>when</small><br><strong>Status</strong> - html-escaped text</p>`. -/
def html (posting : Posting) : List Char :=
  "<p>".toList ++ posting.head (escape posting.visible ++ "</p>".toList)

/-- The same once the content is unescaped. -/
def markup (posting : Posting) : List Char :=
  "<p>".toList ++ posting.head (posting.visible ++ "</p>".toList)

/-- A harmless text does not mention `<small>`. -/
theorem lacks_of_harmless {text : List Char} (safe : harmless text = true) :
    Lacks "<small>" text := by
  refine Regex.search_eq_none fun before after split => ?_
  rw [Regex.first_eq_none, List.eq_nil_iff_forall_not_mem]
  intro v member
  obtain ⟨found, here, fits, -⟩ := mem_ways_anyCase.mp member
  have letters : "<small>".toList = '<' :: 's' :: "mall>".toList := rfl
  rw [letters] at fits
  obtain ⟨c, later, isLess, fits', rfl⟩ := List.forall₂_cons_left_iff.mp fits
  obtain ⟨d, more, isS, -, rfl⟩ := List.forall₂_cons_left_iff.mp fits'
  obtain rfl := eq_of_caseless (by decide) (by decide) isLess
  have here' : after = '<' :: d :: (more ++ v.rest) := here
  have inside : harmless after = true := by
    clear here fits fits' member here'
    subst split
    induction before with
    | nil => exact safe
    | cons e before ih => exact ih (harmless_cons.mp safe).2
  rw [here'] at inside
  obtain rfl := Option.some_injective _ ((harmless_cons.mp inside).1 rfl)
  exact absurd isS (by decide)

/-- What may stand behind an update: nothing, or the next. -/
def Behind (tail : List Char) : Prop :=
  tail = [] ∨ ∃ more, tail = "<p>".toList ++ ("<small>".toList ++ more)

/-- The block of a text that does not mention `<small>`. -/
def block (text trail : List Char) (bodyEnds : Lacks "<small>" (text.dropWhile isSpace ++ trail))
    (marked : ∀ c ∈ trail.head?, c = '<') : Block where
  time := posting.time
  status := posting.status
  body := text.dropWhile isSpace ++ trail
  afterStatus := [' ']
  afterDash := ' ' :: text.takeWhile isSpace
  timeEnds := posting.timeEnds
  statusEnds := posting.statusEnds
  bodyEnds := bodyEnds
  spaces := by
    simp only [List.mem_cons, List.not_mem_nil, or_false]
    rintro gap (rfl | rfl | rfl | rfl | rfl) c member
    · exact absurd member List.not_mem_nil
    · exact absurd member List.not_mem_nil
    · exact absurd member List.not_mem_nil
    · obtain rfl := List.mem_singleton.mp member
      decide
    · rcases List.mem_cons.mp member with rfl | member
      · decide
      · exact List.mem_takeWhile_imp member
  visible := by
    intro c here
    cases rest : text.dropWhile isSpace with
    | nil =>
      rw [rest] at here
      rw [marked c here]
      decide
    | cons d ds =>
      rw [rest] at here
      obtain rfl := Option.some_injective _ here
      exact visible_of_dropWhile rest

theorem before_block (text trail rest : List Char)
    (bodyEnds : Lacks "<small>" (text.dropWhile isSpace ++ trail))
    (marked : ∀ c ∈ trail.head?, c = '<') :
    (posting.block text trail bodyEnds marked).before rest =
      posting.head (text ++ (trail ++ rest)) := by
  have split : text.takeWhile isSpace ++ (text.dropWhile isSpace ++ (trail ++ rest)) =
      text ++ (trail ++ rest) := by
    rw [← List.append_assoc, List.takeWhile_append_dropWhile]
  unfold Block.before Block.fromBreak Block.fromDash block head
  rw [← split]
  simp

/-- The body of a text that does not mention `<small>` is the text exactly when that is harmless. -/
theorem plain_body_iff {text trail : List Char} (gone : tag.sub (fun _ => [' ']) trail = [' '] ∨
      tag.sub (fun _ => [' ']) trail = [' ', ' ']) (closed : trail.getLast? = some '>') :
    plain (text.dropWhile isSpace ++ trail) = collapse text ↔ harmless text = true := by
  unfold plain
  constructor
  · intro same
    have safe := @harmless_sub (text.dropWhile isSpace ++ trail) (by
      rw [List.getLast?_append, closed]
      rintro c ⟨⟩
      rfl)
    rw [← harmless_collapse, same, harmless_collapse] at safe
    exact safe
  · intro safe
    rw [← harmless_dropWhile] at safe
    have spaces : ∀ c ∈ tag.sub (fun _ => [' ']) trail, isSpace c = true := by
      rcases gone with one | two
      · rw [one]
        exact List.all_eq_true.mp rfl
      · rw [two]
        exact List.all_eq_true.mp rfl
    rw [sub_harmless safe, collapse_eq_unwords, words_append_spaces _ spaces, words_dropWhile,
      ← collapse_eq_unwords]

/-- **What the pattern finds of an update**: its own time and status, and a body that is its text
exactly when the text is harmless. -/
theorem reads {tail : List Char} (behind : Behind tail) :
    ∃ block rest, posting.head (posting.visible ++ ("</p>".toList ++ tail)) =
        Block.before block rest ∧ Ends rest ∧ block.time = posting.time ∧
      block.status = posting.status ∧
      (plain block.body = collapse posting.visible ↔ harmless posting.visible = true) ∧
      (harmless posting.visible = true → rest = tail.drop 3) := by
  have word : "<small>".toList ≠ [] := List.cons_ne_nil _ _
  rcases lacks_or_split word (posting.visible.dropWhile isSpace) with
    lacks | ⟨before, found, after, split, lacks, fits⟩
  · have trail : ∃ trail, "</p>".toList ++ tail = trail ++ tail.drop 3 ∧ Lacks "<small>" trail ∧
        trail.head? = some '<' ∧ trail.getLast? = some '>' ∧
        (tag.sub (fun _ => [' ']) trail = [' '] ∨ tag.sub (fun _ => [' ']) trail = [' ', ' ']) ∧
        Ends (tail.drop 3) := by
      rcases behind with rfl | ⟨more, rfl⟩
      · exact ⟨"</p>".toList, rfl, by decide, rfl, rfl, Or.inl (by decide), Or.inl rfl⟩
      · exact ⟨"</p><p>".toList, rfl, by decide, rfl, rfl, Or.inr (by decide), ends_small more⟩
    obtain ⟨trail, tails, clear, opened, closed, gone, ends⟩ := trail
    have marked : ∀ c ∈ trail.head?, c = '<' := by
      rw [opened]
      rintro c ⟨⟩
      rfl
    have bodyEnds := Lacks.append '<' lacks (by decide) marked clear
    refine ⟨posting.block posting.visible trail bodyEnds marked, tail.drop 3, ?_, ends, rfl, rfl,
      plain_body_iff gone closed, fun _ => rfl⟩
    rw [tails, before_block]
  · -- the text itself ends the block: what stands before its `<small>` has fewer `<`
    have first : before.dropWhile isSpace = before := by
      cases before with
      | nil => rfl
      | cons c before =>
        rw [List.dropWhile_cons_of_neg (by simp [visible_of_dropWhile split])]
    have kept : (posting.visible.takeWhile isSpace ++ before).dropWhile isSpace = before := by
      rw [List.dropWhile_append_of_pos fun c member => List.mem_takeWhile_imp member, first]
    have bodyEnds : Lacks "<small>" ((posting.visible.takeWhile isSpace ++ before).dropWhile isSpace
        ++ []) := by
      rw [kept, List.append_nil]
      exact lacks
    have ends : Ends (found ++ (after ++ ("</p>".toList ++ tail))) := Or.inr ⟨found, _, rfl, fits⟩
    have unsafe' : harmless posting.visible ≠ true := by
      intro safe
      rw [← harmless_dropWhile, split] at safe
      have none := Regex.first_of_search_none (lacks_of_harmless safe)
      have here : (⟨after, []⟩ : Way Char) ∈ (anyCase "<small>").ways ⟨found ++ after, []⟩ :=
        mem_ways_anyCase.mpr ⟨found, rfl, fits, rfl⟩
      rw [Regex.first_eq_none.mp none] at here
      exact absurd here List.not_mem_nil
    have fewer : plain before ≠ collapse posting.visible := by
      intro same
      have most := count_sub_le before
      have counted := count_collapse (tag.sub (fun _ => [' ']) before)
      have whole := count_collapse (posting.visible.dropWhile isSpace)
      have opened : '<' ∈ found := by
        obtain ⟨d, rest, rfl⟩ : ∃ d rest, found = d :: rest := by
          cases fits with
          | cons => exact ⟨_, _, rfl⟩
        rw [ends.stop d rfl]
        exact List.mem_cons_self
      have positive := List.count_pos_iff.mpr opened
      rw [collapse_dropWhile, ← same, split, List.count_append, List.count_append] at whole
      unfold plain at whole
      omega
    have unmarked : ∀ c ∈ ([] : List Char).head?, c = '<' := by simp
    refine ⟨posting.block _ [] bodyEnds unmarked, _, ?_, ends, rfl, rfl, ?_, fun safe =>
      absurd safe unsafe'⟩
    · rw [before_block, List.nil_append, List.append_assoc]
      have text' : posting.visible = posting.visible.takeWhile isSpace ++
          (before ++ (found ++ after)) := by
        rw [← split, List.takeWhile_append_dropWhile]
      have same : posting.visible ++ ("</p>".toList ++ tail) =
          posting.visible.takeWhile isSpace ++ (before ++ (found ++ (after ++
            ("</p>".toList ++ tail)))) := by
        conv_lhs => rw [text']
        simp only [List.append_assoc]
      rw [same]
    · show plain ((posting.visible.takeWhile isSpace ++ before).dropWhile isSpace ++ []) = _ ↔ _
      rw [kept, List.append_nil]
      exact ⟨fun same => absurd same fewer, fun safe => absurd safe unsafe'⟩

end Posting

/-! ### An entry -/

/-- The content of an entry, newest update first. -/
def contentOf (postings : List Posting) : List Char := postings.flatMap Posting.html

/-- The same once it is unescaped. -/
def markupOf (postings : List Posting) : List Char := postings.flatMap Posting.markup

theorem markupOf_cons (posting : Posting) (later : List Posting) :
    markupOf (posting :: later) =
      "<p>".toList ++ posting.head (posting.visible ++ ("</p>".toList ++ markupOf later)) := by
  unfold markupOf
  rw [List.flatMap_cons]
  unfold Posting.markup Posting.head
  simp only [List.append_assoc]

theorem markupOf_behind (postings : List Posting) : Posting.Behind (markupOf postings) := by
  cases postings with
  | nil => exact Or.inl rfl
  | cons posting later =>
    rw [markupOf_cons]
    exact Or.inr ⟨_, rfl⟩

/-- The `<p>` in front of a block holds none. -/
theorem findAll_lead (rest : List Char) :
    update.findAll ("<p>".toList ++ ("<small>".toList ++ rest)) =
      update.findAll ("<small>".toList ++ rest) := by
  refine Regex.findAll_append fun front c back split => Regex.first_eq_none.mpr ?_
  have lead : Lacks "<small>" "<p>".toList := by decide
  have none : (anyCase "<small>").ways ⟨c :: back ++ ("<small>".toList ++ rest), []⟩ = [] :=
    ways_anyCase_lacks '<' lead (by decide) split (by rintro d ⟨⟩; rfl)
  show ((anyCase "<small>").ways _).flatMap _ = []
  rw [none]
  rfl

/-- **What the pattern finds in the markup of some updates.** -/
def FoundAs (posting : Posting) (found : Regex.Match Char) : Prop :=
  timeOf found = posting.time ∧ statusOf found = posting.status ∧
    plain (bodyOf found) = collapse posting.visible

/-- The first block of the markup. -/
theorem findAll_cons (posting : Posting) (later : List Posting) :
    ∃ block : Block, ∃ rest, update.findAll (markupOf (posting :: later)) =
        block.found :: update.findAll rest ∧
      block.time = posting.time ∧ block.status = posting.status ∧
      (plain block.body = collapse posting.visible ↔ harmless posting.visible = true) ∧
      (harmless posting.visible = true → rest = (markupOf later).drop 3) := by
  obtain ⟨block, rest, same, ends, time, status, body, safe⟩ :=
    posting.reads (markupOf_behind later)
  have full : block.found.text ≠ [] := by
    unfold Block.found Block.before
    exact List.cons_ne_nil _ _
  refine ⟨block, rest, ?_, time, status, body, safe⟩
  rw [← Regex.findAll_hit (block.first_before ends) full, ← same, markupOf_cons]
  exact findAll_lead _

theorem findAll_drop (postings : List Posting) :
    update.findAll ((markupOf postings).drop 3) = update.findAll (markupOf postings) := by
  cases postings with
  | nil => rfl
  | cons posting later =>
    rw [markupOf_cons]
    exact (findAll_lead _).symm

/-- **The blocks are the updates exactly when every text is harmless.** -/
theorem findAll_markup (postings : List Posting) :
    ((∀ posting ∈ postings, harmless posting.visible = true) →
      List.Forall₂ FoundAs postings (update.findAll (markupOf postings))) ∧
    (List.Forall₂ (fun posting found => plain (bodyOf found) = collapse posting.visible) postings
      (update.findAll (markupOf postings)) →
        ∀ posting ∈ postings, harmless posting.visible = true) := by
  induction postings with
  | nil =>
    refine ⟨fun _ => .nil, fun _ posting member => absurd member List.not_mem_nil⟩
  | cons posting later ih =>
    obtain ⟨block, rest, found, time, status, body, safe⟩ := findAll_cons posting later
    rw [found]
    constructor
    · intro every
      rw [List.forall_mem_cons] at every
      rw [safe every.1, findAll_drop]
      exact .cons ⟨time, status, body.mpr every.1⟩ (ih.1 every.2)
    · intro texts
      obtain ⟨here, others⟩ := List.forall₂_cons.mp texts
      have harmless' := body.mp here
      rw [safe harmless', findAll_drop] at others
      exact List.forall_mem_cons.mpr ⟨harmless', ih.2 others⟩

theorem contentOf_cons (posting : Posting) (later : List Posting) :
    contentOf (posting :: later) =
      "<p><small>".toList ++ (posting.time ++ ("</small><br><strong>".toList ++ (posting.status ++
        ("</strong> - ".toList ++ (escape posting.visible ++
          ("</p>".toList ++ contentOf later)))))) := by
  unfold contentOf
  rw [List.flatMap_cons]
  unfold Posting.html Posting.head
  simp only [List.append_assoc]
  rfl

/-- **Unescaping the content gives back every text as it is.** -/
theorem unescape_content {html5 : List Char → Option (List Char)} (knows : KnowsEscapes html5)
    (postings : List Posting) : unescape html5 (contentOf postings) = markupOf postings := by
  induction postings with
  | nil => rfl
  | cons posting later ih =>
    rw [contentOf_cons, unescape_copy html5 (by decide), unescape_copy html5 posting.timeClear,
      unescape_copy html5 (by decide), unescape_copy html5 posting.statusClear,
      unescape_copy html5 (by decide), unescape_escape knows, unescape_copy html5 (by decide), ih,
      markupOf_cons]
    rfl

/-- The only references in the content are those of escaped characters. -/
theorem mem_findAll_content {postings : List Posting} {found : Regex.Match Char}
    (member : found ∈ charref.findAll (contentOf postings)) :
    ∃ c name, escapeName c = some name ∧ found = ⟨'&' :: name, [(1, name)]⟩ := by
  induction postings with
  | nil => exact absurd member List.not_mem_nil
  | cons posting later ih =>
    rw [contentOf_cons, findAll_copy (by decide), findAll_copy posting.timeClear,
      findAll_copy (by decide), findAll_copy posting.statusClear, findAll_copy (by decide)] at member
    rcases mem_findAll_escape member with here | there
    · exact here
    · rw [findAll_copy (by decide)] at there
      exact ih there

/-- The content has no space around it. -/
theorem text_content {postings : List Posting} (full : postings ≠ []) :
    text (some (contentOf postings)) = contentOf postings := by
  have closed : (contentOf postings).getLast? = some '>' := by
    induction postings with
    | nil => exact absurd rfl full
    | cons posting later ih =>
      have split : contentOf (posting :: later) = posting.html ++ contentOf later := by
        unfold contentOf
        rw [List.flatMap_cons]
      have own : posting.html.getLast? = some '>' := by
        have ends : posting.html = "<p>".toList ++ posting.head (escape posting.visible ++
            "</p".toList) ++ ['>'] := by
          unfold Posting.html Posting.head
          simp
        rw [ends, List.getLast?_concat]
      rw [split, List.getLast?_append]
      cases later with
      | nil => exact own
      | cons next later =>
        rw [ih (List.cons_ne_nil _ _)]
        rfl
  have opened : (contentOf postings).head? = some '<' := by
    cases postings with
    | nil => exact absurd rfl full
    | cons posting later =>
      rw [contentOf_cons]
      rfl
  have left : (contentOf postings).dropWhile isSpace = contentOf postings := by
    obtain ⟨tail, eq⟩ := List.head?_eq_some_iff.mp opened
    rw [eq, List.dropWhile_cons_of_neg (by decide)]
  have right : (contentOf postings).rdropWhile isSpace = contentOf postings := by
    rw [List.rdropWhile_eq_self_iff]
    intro nonempty
    have last := List.getLast?_eq_some_getLast nonempty
    rw [closed] at last
    rw [← Option.some_injective _ last]
    decide
  unfold text strip
  rw [Option.getD_some, left, right]

theorem forall₂_through {α β γ : Type} {R : α → β → Prop} {S : β → γ → Prop} {T : α → γ → Prop}
    {as : List α} {bs : List β} {cs : List γ} (first : List.Forall₂ R as bs)
    (second : List.Forall₂ S bs cs) (joins : ∀ {a b c}, R a b → S b c → T a c) :
    List.Forall₂ T as cs := by
  induction first generalizing cs with
  | nil =>
    obtain rfl := List.forall₂_nil_left_iff.mp second
    exact .nil
  | cons here _ ih =>
    obtain ⟨c, cs, there, later, rfl⟩ := List.forall₂_cons_left_iff.mp second
    exact .cons (joins here there) (ih later)

namespace Adapter

variable {lib : Adapter} {provider : String}

theorem unescaped_content (knows : KnowsEscapes lib.html5) (postings : List Posting) :
    lib.unescaped (contentOf postings) = .ok (markupOf postings) := by
  refine unescaped_ok_iff.mpr ⟨Or.inr fun found member => ?_, unescape_content knows postings⟩
  obtain ⟨c, name, named, rfl⟩ := mem_findAll_content member
  unfold escapeName at named
  split_ifs at named
  all_goals
    obtain rfl := Option.some_injective _ named
    rfl

/-- **Parsing undoes rendering**: `parse_atom` returns, and the records of the entry are those of its
updates, one each, with their text and their status; the other records are of other entries. -/
def Undoes (lib : Adapter) (provider : String) (feed : List Char) (front : List Entry)
    (entry : Entry) (back : List Entry) (postings : List Posting) : Prop :=
  ∃ out fronts mine backs, lib.parseAtom provider feed = .ok out ∧
    lib.entriesUpdates provider front = .ok fronts ∧ lib.entryUpdates provider entry = .ok mine ∧
    lib.entriesUpdates provider back = .ok backs ∧ out.Perm (fronts ++ (mine ++ backs)) ∧
    List.Forall₂ (fun posting u => u.text = String.ofList (collapse posting.visible) ∧
      u.status = String.ofList (lib.lower (plain posting.status))) postings mine

theorem RecordOf.status {heading : Heading} {found : Regex.Match Char} {u : IncidentUpdate}
    (record : lib.RecordOf heading found u) :
    u.status = String.ofList (lib.lower (plain (statusOf found))) := by
  obtain ⟨stamp, ordinal, -, rfl⟩ := record
  rfl

/-- The times are those of the blocks. -/
theorem datable_iff {postings : List Posting} {blocks : List (Regex.Match Char)}
    {revised : DateTime} (found : List.Forall₂ FoundAs postings blocks) :
    (∀ posting ∈ postings, Datable posting.time revised) ↔
      ∀ block ∈ blocks, Datable ((block.group 1).getD []) revised := by
  induction found with
  | nil => simp
  | cons here _ ih =>
    rw [List.forall_mem_cons, List.forall_mem_cons, ih, ← here.1]
    rfl

/-- **Parsing undoes rendering exactly when** every text is harmless, the time of every update can be
worked out, and no other entry makes `parse_atom` raise. -/
theorem undoes_iff {feed : List Char} {front back : List Entry} {entry : Entry}
    {incident : Regex.Match Char} {revised : DateTime} {postings : List Posting}
    (knows : KnowsEscapes lib.html5) (declares : declaresDoctype feed = false)
    (tree : lib.fromString feed = some (front ++ entry :: back))
    (named : lib.incidentId.search (text entry.id) = some incident)
    (dated : lib.parseIso (stampText entry) = .ok (some revised))
    (content : entry.content = some (contentOf postings)) (full : postings ≠ []) :
    lib.Undoes provider feed front entry back postings ↔
      (∀ posting ∈ postings, harmless posting.visible = true) ∧
      (∀ posting ∈ postings, Datable posting.time revised) ∧
      ∀ other ∈ front ++ back, lib.Calculable other := by
  have escaped : lib.unescaped (text entry.content) = .ok (markupOf postings) := by
    rw [content, text_content full]
    exact unescaped_content knows postings
  have some' : update.findAll (markupOf postings) ≠ [] := by
    cases postings with
    | nil => exact absurd rfl full
    | cons posting later =>
      obtain ⟨block, rest, found, -⟩ := findAll_cons posting later
      rw [found]
      exact List.cons_ne_nil _ _
  have blocks : lib.entryUpdates provider entry = lib.blockUpdates
      ⟨provider, incidentOf incident, text entry.title, revised⟩ []
        (update.findAll (markupOf postings)) := entryUpdates_blocks named dated escaped some'
  obtain ⟨found, conversely⟩ := findAll_markup postings
  constructor
  · rintro ⟨out, fronts, mine, backs, -, before, here, behind, -, texts⟩
    rw [blocks] at here
    have bodies := (blockUpdates_records here).imp fun _ _ record => record.shared.2.2
    have safe := conversely (forall₂_through texts bodies.flip fun text body => by
      rw [text.1] at body
      exact (String.ofList_injective body).symm)
    refine ⟨safe, ?_, ?_⟩
    · rw [datable_iff (found safe)]
      exact blockUpdates_ok_iff.mp ⟨mine, here⟩
    · rw [List.forall_mem_append]
      exact ⟨entriesUpdates_ok_iff.mp ⟨fronts, before⟩, entriesUpdates_ok_iff.mp ⟨backs, behind⟩⟩
  · rintro ⟨safe, datable, calculable⟩
    rw [List.forall_mem_append] at calculable
    obtain ⟨fronts, before⟩ := (@entriesUpdates_ok_iff lib provider front).mpr calculable.1
    obtain ⟨backs, behind⟩ := (@entriesUpdates_ok_iff lib provider back).mpr calculable.2
    obtain ⟨mine, here⟩ := (@blockUpdates_ok_iff lib ⟨provider, incidentOf incident,
      text entry.title, revised⟩ [] _).mpr ((datable_iff (found safe)).mp datable)
    have records := blockUpdates_records here
    rw [← blocks] at here
    refine ⟨sorted (fronts ++ (mine ++ backs)), fronts, mine, backs, ?_, before, here, behind,
      List.perm_insertionSort _ _, ?_⟩
    · rw [parseAtom_eq declares tree, map_eq_ok]
      exact ⟨_, entriesUpdates_join before here behind, rfl⟩
    · refine forall₂_through (found safe) records fun block record => ?_
      rw [record.shared.2.2, record.status, block.2.1, block.2.2]
      exact ⟨rfl, rfl⟩

end Adapter

/-! ### A text with a less-than sign -/

theorem latency_timeEnds : Lacks "</small>" "Aug 18, 12:00 UTC".toList := by decide +kernel

theorem latency_statusEnds : Lacks "</strong>" "Monitoring".toList := by decide +kernel

def latency : Posting where
  time := "Aug 18, 12:00 UTC".toList
  status := "Monitoring".toList
  visible := "Latency is < 5 s again.".toList
  timeEnds := latency_timeEnds
  statusEnds := latency_statusEnds
  timeClear := by decide +kernel
  statusClear := by decide +kernel

/-- The incident's entry. -/
def latencyEntry : Entry where
  id := some "tag:status.openai.com,2005:Incident/7".toList
  updated := some "2026-08-18T12:00:00Z".toList
  title := some "Login".toList
  content := some (contentOf [latency])

/-- The feed with this entry alone. -/
def latencyFeed : List Char :=
  "<feed xmlns='http://www.w3.org/2005/Atom'><entry>".toList ++
    ("<id>tag:status.openai.com,2005:Incident/7</id>".toList ++
      ("<updated>2026-08-18T12:00:00Z</updated><title>Login</title><content>".toList ++
        (escape (contentOf [latency]) ++ "</content></entry></feed>".toList)))

/-- The libraries on this feed. -/
def latencyAdapter : Adapter where
  fromString feed := if feed = latencyFeed then some [latencyEntry] else none
  fromIsoFormat raw :=
    if raw = "2026-08-18T12:00:00+00:00".toList then some (noon.toClock, 0) else none
  isoformat _ := "2026-08-18T12:00:00+00:00".toList
  isWord c := c.isAlphanum || c == '_'
  lower text := text.map Char.toLower
  html5 name :=
    if name = "amp;".toList then some ['&'] else if name = "lt;".toList then some ['<']
    else if name = "gt;".toList then some ['>'] else if name = "quot;".toList then some ['"']
    else none
  intMaxStrDigits := 4300
  digest text :=
    if text = "Aug 18, 12:00 UTC#0".toList then "967aa107deda"
    else if text = "Latency is".toList then "6c4fd72b4a28" else ""

theorem latency_knows : KnowsEscapes latencyAdapter.html5 where
  amp := by decide +kernel
  lt := by decide +kernel
  gt := by decide +kernel
  quot := by decide +kernel

theorem latency_declares : Adapter.declaresDoctype latencyFeed = false :=
  Adapter.declaresDoctype_of_clear (by decide +kernel)

theorem latency_tree : latencyAdapter.fromString latencyFeed = some ([] ++ latencyEntry :: []) := by
  unfold latencyAdapter
  simp only [if_true, List.nil_append]

theorem undoes_iff_latency :
    latencyAdapter.Undoes "openai" latencyFeed [] latencyEntry [] [latency] ↔
      (∀ posting ∈ [latency], harmless posting.visible = true) ∧
      (∀ posting ∈ [latency], Datable posting.time noon) ∧
      ∀ other ∈ ([] : List Entry) ++ [], latencyAdapter.Calculable other := by
  have named : latencyAdapter.incidentId.search (text latencyEntry.id) =
      some ⟨"Incident/7".toList, [(1, "7".toList)]⟩ := by decide +kernel
  have dated : latencyAdapter.parseIso (Adapter.stampText latencyEntry) = .ok (some noon) := by
    decide +kernel
  exact Adapter.undoes_iff latency_knows latency_declares latency_tree named dated rfl
    (List.cons_ne_nil _ _)

/-- **Half the text is lost**: from the sign on it is taken for a tag that ends with the paragraph. -/
theorem less_than_loses_text :
    latencyAdapter.entryUpdates "openai" latencyEntry =
      .ok [minuteUpdate "967aa107deda" "monitoring" "Latency is" "6c4fd72b4a28"] ∧
    ¬ latencyAdapter.Undoes "openai" latencyFeed [] latencyEntry [] [latency] := by
  have parsed : latencyAdapter.entryUpdates "openai" latencyEntry =
      .ok [minuteUpdate "967aa107deda" "monitoring" "Latency is" "6c4fd72b4a28"] := by
    decide +kernel
  refine ⟨parsed, ?_⟩
  rintro ⟨out, fronts, mine, backs, -, -, here, -, -, texts⟩
  rw [parsed] at here
  obtain rfl := Except.ok.inj here
  obtain ⟨same, -⟩ := (List.forall₂_cons.mp texts).1
  exact absurd same (by decide +kernel)

end Freshet.Ingest
