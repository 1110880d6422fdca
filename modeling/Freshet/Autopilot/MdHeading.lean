/-
**The headings of a narrative, and what Slack is given for them.**

`_MD_HEADING` is run over the whole text with `^` and `$` at its lines. On the text of some lines it does
to each line what `headed` says: a line with the opening of a heading becomes its `content` between two
stars (`sub_mdHeading`).

* `first_mdHeading` follows the pattern through one line.
* `length_content` is why the lazy group stops no earlier than at the content.
-/

import Freshet.Lib.DoubledMarks
import Mathlib.Data.List.DropRight

namespace Freshet.Autopilot.Mrkdwn

open Freshet.Lib

/-! ### The pattern -/

/-- `[ \t]`. -/
def isBlank (c : Char) : Bool := c == ' ' || c == '\t'

def isHash (c : Char) : Bool := c == '#'

/-- A character, and the one before it. -/
abbrev Place := Option Char × Char

/-- `^`, at the start of a line. -/
def lineStart : Regex Place := .ahead (.one fun p => p.1.all (· == '\n'))

/-- `$`, at the end of a line. -/
def lineEnd : Regex Place := .alt .atEnd (.ahead (.one fun p => p.2 == '\n'))

/-- `[ \t]*#*[ \t]*$`. -/
def closing : Regex Place :=
  .all [.many (isBlank ·.2), .many (isHash ·.2), .many (isBlank ·.2), lineEnd]

/-- `_MD_HEADING`. -/
def mdHeading : Regex Place :=
  .seq (.all [lineStart, .upTo (isBlank ·.2) 3, .one (isHash ·.2), .upTo (isHash ·.2) 5,
    .some (isBlank ·.2)]) (.seq (.group 1 (.few (·.2 != '\n'))) closing)

/-! ### A heading -/

/-- What stands behind `#`, one to six of them, and a blank, where the line opens a heading. -/
def opening (line : List Char) : Option (List Char) :=
  let hashes := (line.dropWhile isBlank).takeWhile isHash
  let text := (line.dropWhile isBlank).dropWhile isHash
  if (line.takeWhile isBlank).length ≤ 3 ∧ hashes ≠ [] ∧ hashes.length ≤ 6 ∧
      text.takeWhile isBlank ≠ [] then some (text.dropWhile isBlank)
  else none

/-- Without the blanks at the end. -/
def trimmed (text : List Char) : List Char := text.rdropWhile isBlank

/-- Without the hashes there. -/
def unhashed (text : List Char) : List Char := (trimmed text).rdropWhile isHash

/-- Without the blanks before these. -/
def content (text : List Char) : List Char := (unhashed text).rdropWhile isBlank

/-- What the substitution makes of a line. -/
def headed (line : List Char) : List Char :=
  match opening line with
  | some text => '*' :: (content text ++ ['*'])
  | none => line

/-! ### Where a heading opens -/

section Opening

variable {line text : List Char}

theorem opening_eq_some (found : opening line = some text) : ∃ indent hashes blanks,
    line = indent ++ (hashes ++ (blanks ++ text)) ∧ (∀ c ∈ indent, isBlank c = true) ∧
      indent.length ≤ 3 ∧ (∀ c ∈ hashes, isHash c = true) ∧ hashes ≠ [] ∧ hashes.length ≤ 6 ∧
      (∀ c ∈ blanks, isBlank c = true) ∧ blanks ≠ [] ∧ ∀ c cs, text = c :: cs → isBlank c = false := by
  unfold opening at found
  dsimp only at found
  split_ifs at found with opens
  obtain ⟨short, some, few, apart⟩ := opens
  obtain rfl := Option.some.inj found
  refine ⟨_, _, _, ?_, fun c member => List.mem_takeWhile_imp member, short,
    fun c member => List.mem_takeWhile_imp member, some, few,
    fun c member => List.mem_takeWhile_imp member, apart, fun c cs eq => ?_⟩
  · rw [List.takeWhile_append_dropWhile, List.takeWhile_append_dropWhile,
      List.takeWhile_append_dropWhile]
  · have stopped := List.head?_dropWhile_not isBlank
      (((line.dropWhile isBlank).dropWhile isHash))
    rw [eq] at stopped
    simpa using stopped

theorem hash_not_blank {c : Char} (hash : isHash c = true) : isBlank c = false := by
  obtain rfl : c = '#' := by simpa [isHash] using hash
  rfl

theorem blank_not_hash {c : Char} (blank : isBlank c = true) : isHash c = false := by
  cases hash : isHash c with
  | false => rfl
  | true => exact absurd blank (by rw [hash_not_blank hash]; exact Bool.false_ne_true)

theorem takeWhile_run {p : Char → Bool} {run rest : List Char} (every : ∀ c ∈ run, p c = true)
    (stop : ∀ c cs, rest = c :: cs → p c = false) :
    (run ++ rest).takeWhile p = run ∧ (run ++ rest).dropWhile p = rest := by
  rw [List.takeWhile_append_of_pos every, List.dropWhile_append_of_pos every]
  cases rest with
  | nil => simp
  | cons c cs => simp [stop c cs rfl]

theorem opening_isSome {indent hashes : List Char} {blank : Char} (blanks : ∀ c ∈ indent, isBlank c = true)
    (short : indent.length ≤ 3) (every : ∀ c ∈ hashes, isHash c = true) (some : hashes ≠ [])
    (few : hashes.length ≤ 6) (apart : isBlank blank = true) :
    opening (indent ++ (hashes ++ blank :: text)) ≠ none := by
  obtain ⟨hash, more, rfl⟩ := List.exists_cons_of_ne_nil some
  have start := @takeWhile_run isBlank indent (hash :: more ++ blank :: text) blanks
    (fun c cs eq => by
      obtain ⟨rfl, -⟩ := List.cons.inj eq
      exact hash_not_blank (every hash List.mem_cons_self))
  have run := @takeWhile_run isHash (hash :: more) (blank :: text) every (fun c cs eq => by
    obtain ⟨rfl, -⟩ := List.cons.inj eq
    exact blank_not_hash apart)
  unfold opening
  dsimp only
  rw [start.1, start.2, run.1, run.2, if_pos ⟨short, some, few, by simp [apart]⟩]
  exact Option.some_ne_none _

end Opening

/-! ### Where its content ends -/

section Content

variable {text : List Char} {p : Char → Bool}

theorem rdropWhile_append_run {run : List Char} (every : ∀ c ∈ run, p c = true) :
    (text ++ run).rdropWhile p = text.rdropWhile p := by
  unfold List.rdropWhile
  rw [List.reverse_append, List.dropWhile_append_of_pos fun c member =>
    every c (List.mem_reverse.mp member)]

theorem rdropWhile_append_stop {run : List Char} (some : run ≠ []) (stop : ∀ c ∈ run, p c = false) :
    (text ++ run).rdropWhile p = text ++ run := by
  rw [List.rdropWhile_eq_self_iff]
  intro full
  rw [List.getLast_append_of_ne_nil full some, stop _ (List.getLast_mem some)]
  exact Bool.false_ne_true

theorem length_rdropWhile_le (p : Char → Bool) (text : List Char) :
    (text.rdropWhile p).length ≤ text.length := (List.rdropWhile_prefix p text).length_le

/-- **What the end of a heading may be made of is no content.** -/
theorem length_content {before blanks hashes after : List Char}
    (blank : ∀ c ∈ blanks, isBlank c = true) (hash : ∀ c ∈ hashes, isHash c = true)
    (blank' : ∀ c ∈ after, isBlank c = true) :
    (content (before ++ (blanks ++ (hashes ++ after)))).length ≤ before.length := by
  have shrinks : ∀ text, (content text).length ≤ (trimmed text).length := fun text =>
    (length_rdropWhile_le _ _).trans (length_rdropWhile_le _ _)
  have last : trimmed (before ++ (blanks ++ (hashes ++ after))) =
      trimmed (before ++ (blanks ++ hashes)) := by
    unfold trimmed
    rw [← List.append_assoc, ← List.append_assoc, ← List.append_assoc,
      rdropWhile_append_run blank', List.append_assoc]
  by_cases none : hashes = []
  · subst none
    refine (shrinks _).trans ?_
    rw [last, List.append_nil]
    unfold trimmed
    rw [rdropWhile_append_run blank]
    exact length_rdropWhile_le _ _
  · have kept : trimmed (before ++ (blanks ++ hashes)) = before ++ (blanks ++ hashes) := by
      unfold trimmed
      rw [← List.append_assoc]
      exact rdropWhile_append_stop none fun c member => hash_not_blank (hash c member)
    unfold content unhashed
    rw [last, kept, ← List.append_assoc, rdropWhile_append_run hash]
    by_cases touching : blanks = []
    · rw [touching, List.append_nil]
      exact (length_rdropWhile_le _ _).trans (length_rdropWhile_le _ _)
    · rw [rdropWhile_append_stop touching fun c member => blank_not_hash (blank c member),
        rdropWhile_append_run blank]
      exact length_rdropWhile_le _ _

/-- What follows the content. -/
theorem content_eq (text : List Char) : ∃ blanks hashes after,
    text = content text ++ (blanks ++ (hashes ++ after)) ∧ (∀ c ∈ blanks, isBlank c = true) ∧
      (∀ c ∈ hashes, isHash c = true) ∧ ∀ c ∈ after, isBlank c = true := by
  refine ⟨(unhashed text).rtakeWhile isBlank, (trimmed text).rtakeWhile isHash,
    text.rtakeWhile isBlank, ?_, fun c member => List.mem_rtakeWhile_imp member,
    fun c member => List.mem_rtakeWhile_imp member, fun c member => List.mem_rtakeWhile_imp member⟩
  unfold content
  rw [← List.append_assoc, List.rdropWhile_append_rtakeWhile]
  unfold unhashed
  rw [← List.append_assoc, List.rdropWhile_append_rtakeWhile]
  exact List.rdropWhile_append_rtakeWhile.symm

end Content

/-! ### The pattern at a line -/

section Line

variable {line tail : List Place} {groups : List (Nat × List Place)}

/-- What stands at the end of a line. -/
def Ends (tail : List Place) : Prop := ∀ p ps, tail = p :: ps → p.2 = '\n'

/-- What has no line's end in it is cut off the line. -/
theorem cut_line {run rest : List Place} (eq : line ++ tail = run ++ rest) (ends : Ends tail)
    (clear : ∀ p ∈ run, p.2 ≠ '\n') : ∃ more, line = run ++ more ∧ rest = more ++ tail := by
  rcases List.append_eq_append_iff.mp eq with ⟨more, rfl, split⟩ | ⟨more, rfl, rfl⟩
  · cases more with
    | nil => exact ⟨[], by simp, by simpa using split.symm⟩
    | cons p more =>
      exact absurd (ends p _ split) (clear p (List.mem_append_right _ List.mem_cons_self))
  · exact ⟨more, rfl, rfl⟩

theorem blank_clear {p : Place} (blank : isBlank p.2 = true) : p.2 ≠ '\n' := by
  intro same
  rw [same] at blank
  cases blank

theorem hash_clear {p : Place} (hash : isHash p.2 = true) : p.2 ≠ '\n' := by
  intro same
  rw [same] at hash
  cases hash

theorem mem_ways_lineEnd {w v : Way Place} (member : v ∈ lineEnd.ways w) :
    v.rest = w.rest ∧ Ends w.rest := by
  rcases List.mem_append.mp member with last | next
  · unfold Regex.ways at last
    split_ifs at last with empty
    · obtain rfl := List.mem_singleton.mp last
      refine ⟨rfl, fun p ps eq => ?_⟩
      rw [eq] at empty
      cases empty
    · cases last
  · obtain ⟨rest, groups⟩ := w
    unfold Regex.ways at next
    split at next
    · cases next
    · rename_i u more inside
      obtain rfl := List.mem_singleton.mp next
      have first : u ∈ (Regex.one fun p : Place => p.2 == '\n').ways ⟨rest, groups⟩ := by
        rw [inside]
        exact List.mem_cons_self
      obtain ⟨p, split, newline, -⟩ := Regex.mem_ways_one.mp first
      refine ⟨rfl, fun q qs eq => ?_⟩
      obtain ⟨rfl, -⟩ := List.cons.inj (split.symm.trans eq)
      exact eq_of_beq newline

theorem mem_ways_closing {w v : Way Place} (member : v ∈ closing.ways w) :
    ∃ blanks hashes after, w.rest = (blanks ++ (hashes ++ after)) ++ v.rest ∧
      (∀ p ∈ blanks, isBlank p.2 = true) ∧ (∀ p ∈ hashes, isHash p.2 = true) ∧
      (∀ p ∈ after, isBlank p.2 = true) ∧ Ends v.rest := by
  obtain ⟨x, first, member⟩ := Regex.mem_ways_seq.mp member
  obtain ⟨y, second, member⟩ := Regex.mem_ways_seq.mp member
  obtain ⟨z, third, member⟩ := Regex.mem_ways_seq.mp member
  obtain ⟨u, last, member⟩ := Regex.mem_ways_seq.mp member
  obtain rfl := List.mem_singleton.mp member
  obtain ⟨blanks, split, blank, -⟩ := Regex.mem_ways_many.mp first
  obtain ⟨hashes, split', hash, -⟩ := Regex.mem_ways_many.mp second
  obtain ⟨after, split'', blank', -⟩ := Regex.mem_ways_many.mp third
  obtain ⟨same, ends⟩ := mem_ways_lineEnd last
  refine ⟨blanks, hashes, after, ?_, blank, hash, blank', same ▸ ends⟩
  rw [split, split', split'', same, List.append_assoc, List.append_assoc]

theorem leads_lineEnd (ends : Ends tail) : lineEnd.Leads ⟨tail, groups⟩ ⟨tail, groups⟩ := by
  cases tail with
  | nil => exact Regex.Leads.left rfl
  | cons p tail =>
    refine Regex.Leads.right rfl ?_
    have newline : p.2 = '\n' := ends p tail rfl
    simp [Regex.Leads, Regex.ways, newline]

theorem leads_closing {blanks hashes after : List Place} (blank : ∀ p ∈ blanks, isBlank p.2 = true)
    (hash : ∀ p ∈ hashes, isHash p.2 = true) (blank' : ∀ p ∈ after, isBlank p.2 = true)
    (ends : Ends tail) :
    closing.Leads ⟨(blanks ++ (hashes ++ after)) ++ tail, groups⟩ ⟨tail, groups⟩ := by
  have stop : ∀ p ps, tail = p :: ps → isBlank p.2 = false ∧ isHash p.2 = false := by
    intro p ps eq
    rw [ends p ps eq]
    exact ⟨rfl, rfl⟩
  have last := Regex.Leads.step (@leads_lineEnd _ groups ends) (Regex.leads_nothing _)
  have third : ∀ {run : List Place}, (∀ p ∈ run, isBlank p.2 = true) →
      (Regex.all [.many (isBlank ·.2), lineEnd]).Leads ⟨run ++ tail, groups⟩ ⟨tail, groups⟩ :=
    fun every => Regex.Leads.many every (fun p ps eq => (stop p ps eq).1) last
  rw [List.append_assoc, List.append_assoc]
  cases hashes with
  | nil =>
    -- no hash: the first run takes the blanks of both
    rw [List.nil_append, ← List.append_assoc]
    refine Regex.Leads.many (fun p member => ?_) (fun p ps eq => (stop p ps eq).1) ?_
    · exact (List.mem_append.mp member).elim (blank p) (blank' p)
    · exact @Regex.Leads.many _ _ _ [] _ _ _ (by simp) (fun p ps eq => (stop p ps eq).2)
        (@third [] (by simp))
  | cons h hashes =>
    refine Regex.Leads.many blank (fun p ps eq => ?_) (Regex.Leads.many hash (fun p ps eq => ?_)
      (third blank'))
    · obtain ⟨rfl, -⟩ := List.cons.inj eq
      exact hash_not_blank (hash _ List.mem_cons_self)
    · cases after with
      | nil => exact (stop p ps eq).2
      | cons b after =>
        obtain ⟨rfl, -⟩ := List.cons.inj eq
        exact blank_not_hash (blank' _ List.mem_cons_self)

/-- **Nothing matches where no heading opens.** -/
theorem ways_mdHeading_nil (ends : Ends tail) (closed : opening (line.map Prod.snd) = none) :
    mdHeading.ways ⟨line ++ tail, []⟩ = [] := by
  refine List.eq_nil_iff_forall_not_mem.mpr fun v member => ?_
  obtain ⟨x, opened, -⟩ := Regex.mem_ways_seq.mp member
  obtain ⟨a, start, opened⟩ := Regex.mem_ways_seq.mp opened
  obtain ⟨b, indented, opened⟩ := Regex.mem_ways_seq.mp opened
  obtain ⟨c, first, opened⟩ := Regex.mem_ways_seq.mp opened
  obtain ⟨d, others, opened⟩ := Regex.mem_ways_seq.mp opened
  obtain ⟨e, apart, -⟩ := Regex.mem_ways_seq.mp opened
  obtain ⟨f, blank, -⟩ := Regex.mem_ways_seq.mp apart
  obtain ⟨indent, split, short, blanks, -⟩ := Regex.mem_ways_upTo indented
  obtain ⟨h, split', hash, -⟩ := Regex.mem_ways_one.mp first
  obtain ⟨hashes, split'', few, every, -⟩ := Regex.mem_ways_upTo others
  obtain ⟨k, lastly, apart, -⟩ := Regex.mem_ways_one.mp blank
  have whole : line ++ tail = (indent ++ (h :: hashes ++ [k])) ++ f.rest := by
    rw [show line ++ tail = a.rest from (Regex.rest_of_ahead start).symm, split, split', split'',
      lastly]
    simp
  have clear : ∀ p ∈ indent ++ (h :: hashes ++ [k]), p.2 ≠ '\n' := by
    intro p member
    rcases List.mem_append.mp member with inside | inside
    · exact blank_clear (blanks p inside)
    · rcases List.mem_append.mp inside with inside | last
      · exact hash_clear ((List.mem_cons.mp inside).elim (fun same => same ▸ hash) (every p))
      · exact blank_clear (List.mem_singleton.mp last ▸ apart)
  obtain ⟨more, rfl, -⟩ := cut_line whole ends clear
  refine absurd closed ?_
  have opens := @opening_isSome (more.map Prod.snd) (indent.map Prod.snd) ((h :: hashes).map Prod.snd)
    k.2 (List.forall_mem_map.mpr blanks) (by simpa using short)
    (List.forall_mem_map.mpr (List.forall_mem_cons.mpr ⟨hash, every⟩)) (by simp)
    (by rw [List.length_map, List.length_cons]; omega) apart
  simpa using opens

/-- The opening of a heading is taken in one way. -/
theorem leads_opening {indent hashes blanks rest : List Place}
    (start : ∀ p ps, indent ++ (hashes ++ (blanks ++ rest)) = p :: ps → p.1.all (· == '\n') = true)
    (blank : ∀ p ∈ indent, isBlank p.2 = true) (short : indent.length ≤ 3)
    (hash : ∀ p ∈ hashes, isHash p.2 = true) (some : hashes ≠ []) (few : hashes.length ≤ 6)
    (blank' : ∀ p ∈ blanks, isBlank p.2 = true) (apart : blanks ≠ [])
    (stop : ∀ p ps, rest = p :: ps → isBlank p.2 = false) :
    (Regex.all [lineStart, .upTo (isBlank ·.2) 3, .one (isHash ·.2), .upTo (isHash ·.2) 5,
      .some (isBlank ·.2)]).Leads ⟨indent ++ (hashes ++ (blanks ++ rest)), groups⟩ ⟨rest, groups⟩ := by
  obtain ⟨h, hashes, rfl⟩ := List.exists_cons_of_ne_nil some
  obtain ⟨b, blanks, rfl⟩ := List.exists_cons_of_ne_nil apart
  have here : lineStart.Leads ⟨indent ++ (h :: hashes ++ (b :: blanks ++ rest)), groups⟩
      ⟨indent ++ (h :: hashes ++ (b :: blanks ++ rest)), groups⟩ := by
    obtain ⟨p, ps, eq⟩ := List.exists_cons_of_ne_nil
      (show indent ++ (h :: hashes ++ (b :: blanks ++ rest)) ≠ [] by simp)
    have first := start p ps eq
    rw [eq]
    simp [lineStart, Regex.Leads, Regex.ways, first]
  have indented : (Regex.upTo (fun p : Place => isBlank p.2) 3).Leads
      ⟨indent ++ (h :: hashes ++ (b :: blanks ++ rest)), groups⟩
      ⟨h :: hashes ++ (b :: blanks ++ rest), groups⟩ := by
    refine Regex.leads_upTo blank short (Or.inr fun p ps eq => ?_)
    obtain ⟨rfl, -⟩ := List.cons.inj eq
    exact hash_not_blank (hash h List.mem_cons_self)
  have first : (Regex.one fun p : Place => isHash p.2).Leads
      ⟨h :: hashes ++ (b :: blanks ++ rest), groups⟩ ⟨hashes ++ (b :: blanks ++ rest), groups⟩ := by
    simp [Regex.Leads, Regex.ways, hash h List.mem_cons_self]
  have others : (Regex.upTo (fun p : Place => isHash p.2) 5).Leads
      ⟨hashes ++ (b :: blanks ++ rest), groups⟩ ⟨b :: blanks ++ rest, groups⟩ := by
    refine Regex.leads_upTo (fun p member => hash p (List.mem_cons_of_mem _ member))
      (Nat.le_of_succ_le_succ few) (Or.inr fun p ps eq => ?_)
    obtain ⟨rfl, -⟩ := List.cons.inj eq
    exact blank_not_hash (blank' b List.mem_cons_self)
  have gap : (Regex.some fun p : Place => isBlank p.2).Leads
      ⟨b :: blanks ++ rest, groups⟩ ⟨rest, groups⟩ := by
    obtain ⟨shorter, eq⟩ := Regex.rests_append_stop
      (fun p member => blank' p (List.mem_cons_of_mem _ member)) stop
    simp [Regex.Leads, Regex.some, Regex.ways, blank' b List.mem_cons_self, eq]
  exact here.step (indented.step (first.step (others.step (gap.step (Regex.leads_nothing _)))))

/-- **A heading is matched whole, and the group holds its content.** -/
theorem first_mdHeading {text : List Char}
    (start : ∀ p ps, line ++ tail = p :: ps → p.1.all (· == '\n') = true)
    (clear : ∀ p ∈ line, p.2 ≠ '\n') (ends : Ends tail)
    (opens : opening (line.map Prod.snd) = some text) :
    ∃ held, held.map Prod.snd = content text ∧
      mdHeading.first (line ++ tail) = some (⟨line, [(1, held)]⟩, tail) := by
  obtain ⟨_, _, _, split, blank, short, hash, some, few, blank', apart, stop⟩ := opening_eq_some opens
  obtain ⟨_, _, _, split', blanks, hashes, blanks'⟩ := content_eq text
  obtain ⟨indent, line₁, rfl, rfl, split₁⟩ := List.map_eq_append_iff.mp split
  obtain ⟨marks, line₂, rfl, rfl, split₂⟩ := List.map_eq_append_iff.mp split₁
  obtain ⟨gap, line₃, rfl, rfl, split₃⟩ := List.map_eq_append_iff.mp split₂
  obtain ⟨held, line₄, rfl, same, split₄⟩ := List.map_eq_append_iff.mp (split₃.trans split')
  obtain ⟨gap', line₅, rfl, rfl, split₅⟩ := List.map_eq_append_iff.mp split₄
  obtain ⟨marks', after, rfl, rfl, rfl⟩ := List.map_eq_append_iff.mp split₅
  have blanks := List.forall_mem_map.mp blanks
  have hashes := List.forall_mem_map.mp hashes
  have blanks' := List.forall_mem_map.mp blanks'
  have lineClear : ∀ p ∈ held ++ (gap' ++ (marks' ++ after)), p.2 ≠ '\n' := fun p member =>
    clear p (List.mem_append_right _ (List.mem_append_right _ (List.mem_append_right _ member)))
  have whole : indent ++ (marks ++ (gap ++ (held ++ (gap' ++ (marks' ++ after))))) ++ tail =
      indent ++ (marks ++ (gap ++ (held ++ (gap' ++ (marks' ++ after) ++ tail)))) := by
    simp only [List.append_assoc]
  have opened := @leads_opening [] indent marks gap (held ++ (gap' ++ (marks' ++ after) ++ tail))
    (fun p ps eq => start p ps (whole.trans eq)) (List.forall_mem_map.mp blank)
    (by simpa using short) (List.forall_mem_map.mp hash) (by simpa using some) (by simpa using few)
    (List.forall_mem_map.mp blank') (by simpa using apart) ?_
  · refine ⟨held, same, Regex.first_of_leads ?_⟩
    rw [whole]
    refine opened.step (Regex.Leads.groupFew (fun p member => ?_) ?_
      (leads_closing blanks hashes blanks' ends))
    · exact bne_iff_ne.mpr (lineClear p (List.mem_append_left _ member))
    · -- any earlier end would make the content shorter than it is
      intro before c later cut
      refine List.eq_nil_iff_forall_not_mem.mpr fun v member => ?_
      obtain ⟨first, second, third, split₆, blank₁, hash₂, blank₃, ends'⟩ := mem_ways_closing member
      have clear' : ∀ p ∈ c :: later ++ (gap' ++ (marks' ++ after)), p.2 ≠ '\n' := fun p inside => by
        refine lineClear p ?_
        rw [cut, List.append_assoc]
        exact List.mem_append_right _ inside
      have runClear : ∀ p ∈ first ++ (second ++ third), p.2 ≠ '\n' := by
        intro p inside
        rcases List.mem_append.mp inside with here | here
        · exact blank_clear (blank₁ p here)
        · exact (List.mem_append.mp here).elim (fun here => hash_clear (hash₂ p here))
            fun here => blank_clear (blank₃ p here)
      have split₇ : (c :: later ++ (gap' ++ (marks' ++ after))) ++ tail =
          (first ++ (second ++ third)) ++ v.rest := by
        rw [← split₆, List.append_assoc]
      obtain ⟨more, run, left⟩ := cut_line split₇ ends runClear
      obtain rfl : more = [] := by
        cases more with
        | nil => rfl
        | cons p more =>
          refine absurd (ends' p (more ++ tail) left) (clear' p ?_)
          rw [run]
          exact List.mem_append_right _ List.mem_cons_self
      have short := @length_content (before.map Prod.snd) (first.map Prod.snd)
        (second.map Prod.snd) (third.map Prod.snd) (List.forall_mem_map.mpr blank₁)
        (List.forall_mem_map.mpr hash₂) (List.forall_mem_map.mpr blank₃)
      have line : before.map Prod.snd ++ (first.map Prod.snd ++
          (second.map Prod.snd ++ third.map Prod.snd)) = text := by
        rw [← split₃, cut, List.append_assoc, run]
        simp only [List.map_append, List.append_nil]
      rw [line, ← same, cut, List.length_map, List.length_map, List.length_append,
        List.length_cons] at short
      omega
  · intro p ps eq
    cases here : held ++ (gap' ++ (marks' ++ after)) with
    | nil =>
      rw [← List.append_assoc, here, List.nil_append] at eq
      rw [ends p ps eq]
      rfl
    | cons q qs =>
      rw [← List.append_assoc, here, List.cons_append] at eq
      obtain ⟨rfl, -⟩ := List.cons.inj eq
      exact stop q.2 (qs.map Prod.snd) (by rw [← split₃, here, List.map_cons])

end Line

/-! ### The lines of a text -/

section Lines

variable {line tail : List Char} {before : Option Char}

/-- Only the first character of a line stands at its start. -/
theorem ways_mdHeading_inside {p : Place} {ps : List Place} (inside : p.1.all (· == '\n') = false) :
    mdHeading.ways ⟨p :: ps, []⟩ = [] := by
  have none : lineStart.ways ⟨p :: ps, []⟩ = [] := by
    simp [lineStart, Regex.ways, inside]
  show ((lineStart.ways _).flatMap _).flatMap _ = []
  rw [none]
  rfl

theorem ends_placed (ends : ∀ c cs, tail = c :: cs → c = '\n') : Ends (Regex.placed before tail) := by
  intro p ps eq
  cases tail with
  | nil => cases eq
  | cons c cs =>
    obtain ⟨rfl, -⟩ := List.cons.inj eq
    exact ends c cs rfl

/-- **What the substitution does to a line.** -/
theorem sub_line (start : before.all (· == '\n') = true) (clear : '\n' ∉ line)
    (ends : ∀ c cs, tail = c :: cs → c = '\n') :
    (mdHeading.sub (DoubledMarks.between (none, '*')) (Regex.placed before (line ++ tail))).map
        Prod.snd =
      headed line ++ (mdHeading.sub (DoubledMarks.between (none, '*'))
        (Regex.placed (line.getLast?.or before) tail)).map Prod.snd := by
  have ends' : Ends (Regex.placed (line.getLast?.or before) tail) := ends_placed ends
  have clear' : ∀ p ∈ Regex.placed before line, p.2 ≠ '\n' := by
    intro p member same
    refine clear ?_
    rw [← Regex.map_placed before line, ← same]
    exact List.mem_map_of_mem member
  rw [Regex.placed_append]
  unfold headed
  cases opens : opening line with
  | none =>
    rw [← Regex.map_placed before line] at opens
    rw [Regex.sub_append, List.map_append, Regex.map_placed]
    intro first p later cut
    rw [Regex.first_eq_none]
    cases first with
    | nil =>
      rw [show p :: later = Regex.placed before line from cut.symm]
      exact ways_mdHeading_nil ends' opens
    | cons q first =>
      refine ways_mdHeading_inside ?_
      obtain ⟨d, among, same⟩ := Regex.mem_tail_placed cut
      rw [same]
      refine beq_eq_false_iff_ne.mpr fun newline => clear ?_
      rw [← newline]
      exact among
  | some text =>
    rw [← Regex.map_placed before line] at opens
    have first : ∀ p ps, Regex.placed before line ++ Regex.placed (line.getLast?.or before) tail =
        p :: ps → p.1.all (· == '\n') = true := by
      intro p ps eq
      rw [← Regex.placed_append] at eq
      cases whole : line ++ tail with
      | nil =>
        rw [whole] at eq
        cases eq
      | cons c cs =>
        rw [whole] at eq
        obtain ⟨rfl, -⟩ := List.cons.inj eq
        exact start
    obtain ⟨held, same, found⟩ := first_mdHeading first clear' ends' opens
    have full : Regex.placed before line ≠ [] := by
      intro empty
      rw [empty] at opens
      cases opens
    rw [Regex.sub_hit found full, List.map_append]
    simp [DoubledMarks.between, Regex.Match.group, same]

/-- **What it does to the text of some lines.** -/
theorem sub_mdHeading (start : before.all (· == '\n') = true) {lines : List (List Char)}
    (clear : ∀ line ∈ lines, '\n' ∉ line) :
    (mdHeading.sub (DoubledMarks.between (none, '*'))
        (Regex.placed before (['\n'].intercalate lines))).map Prod.snd =
      ['\n'].intercalate (lines.map headed) := by
  induction lines generalizing before with
  | nil => rfl
  | cons line lines ih =>
    have here := clear line List.mem_cons_self
    cases lines with
    | nil =>
      have last := @sub_line line [] before start here (by simp)
      rw [List.append_nil] at last
      rw [List.map_cons, List.map_nil, List.intercalate_singleton, List.intercalate_singleton, last]
      exact List.append_nil _
    | cons next lines =>
      have later := @ih (some '\n') rfl fun line member =>
        clear line (List.mem_cons_of_mem _ member)
      have newline : (mdHeading.sub (DoubledMarks.between (none, '*')) (Regex.placed
          (line.getLast?.or before) ('\n' :: ['\n'].intercalate (next :: lines)))).map Prod.snd =
          '\n' :: ['\n'].intercalate ((next :: lines).map headed) := by
        rw [Regex.placed, Regex.sub_plain, List.map_cons, later]
        refine Regex.first_eq_none.mpr (@ways_mdHeading_nil [] _ (fun p ps eq => ?_) rfl)
        obtain ⟨rfl, -⟩ := List.cons.inj eq
        rfl
      have heads : (line :: next :: lines).map headed =
          headed line :: headed next :: lines.map headed := rfl
      rw [heads, List.intercalate_cons_cons, List.intercalate_cons_cons]
      simp only [List.append_assoc, List.singleton_append]
      rw [sub_line start here (fun c cs eq => (List.cons.inj eq).1.symm), newline]
      rfl

end Lines

end Freshet.Autopilot.Mrkdwn
