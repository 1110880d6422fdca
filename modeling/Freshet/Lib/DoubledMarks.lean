/-
**Spans between doubled marks.**

`mm(.+?)mm` finds what stands between two doubled marks, and the substitution leaves one mark on either
side. It takes the marks two at a time from the left, so a third mark beside a pair, or a pair without
a partner, leaves two marks side by side in the result (`doubled_sub_iff`).

* `sub_cases` says once what the substitution does at the head of a text.
* `settles` reads the marks of a text with one bit of memory, and has a rule for every way to add to it.
-/

import Freshet.Lib.Regex

namespace Freshet.Lib

namespace DoubledMarks

variable {α : Type} [DecidableEq α]

/-- `mm(.+?)mm`, the dot standing for any character. -/
def spans (mark : α) : Regex α :=
  .all [.word [(decide <| · = mark), (decide <| · = mark)], .group 1 (.someFew fun _ => true),
    .word [(decide <| · = mark), (decide <| · = mark)]]

/-- `m\1m`. -/
def between (mark : α) (m : Regex.Match α) : List α := mark :: ((m.group 1).getD [] ++ [mark])

omit [DecidableEq α] in
/-- Two marks side by side. -/
def Doubled (mark : α) (text : List α) : Prop := [mark, mark] <:+: text

/-- **The marks can be taken two pairs at a time**: none stands beside a pair, and no pair is left
over. `isOpen` holds behind the first pair of two. -/
def settles (mark : α) : (isOpen : Bool) → List α → Bool
  | isOpen, [] => !isOpen
  | isOpen, [_] => !isOpen
  | isOpen, c :: d :: rest =>
    if c = mark ∧ d = mark then decide (rest.head? ≠ some mark) && settles mark (!isOpen) rest
    else settles mark isOpen (d :: rest)

section Marks

variable {mark : α} {text rest : List α} {isOpen : Bool} {c : α}

/-! ### Two marks side by side -/

omit [DecidableEq α] in
@[simp] theorem not_doubled_nil : ¬ Doubled mark [] := by
  intro inside
  exact absurd (List.infix_nil.mp inside) (List.cons_ne_nil _ _)

omit [DecidableEq α] in
theorem doubled_cons : Doubled mark (c :: rest) ↔
    (c = mark ∧ rest.head? = some mark) ∨ Doubled mark rest := by
  unfold Doubled
  rw [List.infix_cons_iff]
  refine or_congr_left ?_
  cases rest with
  | nil => simp
  | cons d rest =>
    rw [List.cons_prefix_cons, List.cons_prefix_cons, List.head?_cons, Option.some_inj]
    exact ⟨fun ⟨one, two, _⟩ => ⟨one.symm, two.symm⟩, fun ⟨one, two⟩ =>
      ⟨one.symm, two.symm, List.nil_prefix⟩⟩

omit [DecidableEq α] in
theorem doubled_pair : Doubled mark (mark :: mark :: rest) :=
  doubled_cons.mpr (Or.inl ⟨rfl, rfl⟩)

omit [DecidableEq α] in
/-- Past a text that has no two marks, even with one behind it. -/
theorem doubled_append (clear : ¬ Doubled mark (text ++ [mark])) :
    Doubled mark (text ++ mark :: rest) ↔ rest.head? = some mark ∨ Doubled mark rest := by
  induction text with
  | nil =>
    rw [List.nil_append, doubled_cons]
    exact or_congr_left (and_iff_right rfl)
  | cons c text ih =>
    rw [List.cons_append, doubled_cons, not_or] at clear
    rw [List.cons_append, doubled_cons, ih clear.2]
    refine or_iff_right fun ⟨here, next⟩ => clear.1 ⟨here, ?_⟩
    cases text with
    | nil => rfl
    | cons d text => exact next

/-- **Where the first two marks stand**, if there are any. -/
theorem first_doubled (mark : α) (text : List α) : ¬ Doubled mark text ∨
    ∃ before after, text = before ++ mark :: mark :: after ∧ ¬ Doubled mark (before ++ [mark]) := by
  induction text with
  | nil => exact Or.inl not_doubled_nil
  | cons c text ih =>
    by_cases here : c = mark ∧ text.head? = some mark
    · obtain ⟨rfl, next⟩ := here
      obtain ⟨after, rfl⟩ := List.head?_eq_some_iff.mp next
      refine Or.inr ⟨[], after, rfl, ?_⟩
      rw [List.nil_append, doubled_cons, not_or]
      exact ⟨by simp, not_doubled_nil⟩
    · rcases ih with none | ⟨before, after, rfl, clear⟩
      · exact Or.inl (doubled_cons.not.mpr (not_or.mpr ⟨here, none⟩))
      · refine Or.inr ⟨c :: before, after, rfl, ?_⟩
        rw [List.cons_append, doubled_cons, not_or]
        refine ⟨fun ⟨same, next⟩ => here ⟨same, ?_⟩, clear⟩
        cases before with
        | nil => rfl
        | cons d before => exact next

/-! ### Reading the marks -/

theorem settles_cons_of_ne (other : c ≠ mark) :
    settles mark isOpen (c :: rest) = settles mark isOpen rest := by
  cases rest with
  | nil => rfl
  | cons d rest =>
    rw [settles, if_neg]
    exact fun both => other both.1

theorem settles_mark (alone : rest.head? ≠ some mark) :
    settles mark isOpen (mark :: rest) = settles mark isOpen rest := by
  cases rest with
  | nil => rfl
  | cons d rest =>
    rw [settles, if_neg]
    exact fun both => alone (congrArg some both.2)

theorem settles_pair : settles mark isOpen (mark :: mark :: rest) =
    (decide (rest.head? ≠ some mark) && settles mark (!isOpen) rest) := by
  rw [settles, if_pos ⟨rfl, rfl⟩]

/-- Text without marks says nothing. -/
theorem settles_append (clear : mark ∉ text) :
    settles mark isOpen (text ++ rest) = settles mark isOpen rest := by
  induction text with
  | nil => rfl
  | cons c text ih =>
    obtain ⟨other, clear⟩ := not_or.mp (mt List.mem_cons.mpr clear)
    rw [List.cons_append, settles_cons_of_ne (Ne.symm other), ih clear]

/-- Neither does text with single marks. -/
theorem settles_single (clear : ¬ Doubled mark (text ++ [mark])) :
    settles mark isOpen (text ++ mark :: mark :: rest) =
      settles mark isOpen (mark :: mark :: rest) := by
  induction text with
  | nil => rfl
  | cons c text ih =>
    rw [List.cons_append, doubled_cons, not_or] at clear
    rw [List.cons_append, ← ih clear.2]
    by_cases same : c = mark
    · subst same
      refine settles_mark fun next => clear.1 ⟨rfl, ?_⟩
      cases text with
      | nil => rfl
      | cons d text => exact next
    · exact settles_cons_of_ne same

theorem settles_of_not_doubled (clear : ¬ Doubled mark text) : settles mark isOpen text = !isOpen := by
  induction text with
  | nil => rfl
  | cons c text ih =>
    rw [doubled_cons, not_or] at clear
    rw [← ih clear.2]
    by_cases same : c = mark
    · subst same
      exact settles_mark fun next => clear.1 ⟨rfl, next⟩
    · exact settles_cons_of_ne same

/-! ### The substitution -/

omit [DecidableEq α] in
theorem pair_fits {p : α → Bool} (same : ∀ c, p c = true ↔ c = mark) {text : List α} :
    List.Forall₂ (fun test c => test c = true) [p, p] text ↔ text = [mark, mark] := by
  constructor
  · rintro (_ | ⟨first, _ | ⟨second, done⟩⟩)
    cases done
    rw [(same _).mp first, (same _).mp second]
  · rintro rfl
    exact .cons ((same _).mpr rfl) (.cons ((same _).mpr rfl) .nil)

/-- What a match is made of. -/
theorem mem_ways_spans {w v : Way α} (member : v ∈ (spans mark).ways w) : ∃ held, held ≠ [] ∧
    w.rest = mark :: mark :: held ++ mark :: mark :: v.rest ∧ v.groups = (1, held) :: w.groups := by
  have same : ∀ c, decide (c = mark) = true ↔ c = mark := fun c => decide_eq_true_iff
  obtain ⟨x, opened, member⟩ := Regex.mem_ways_seq.mp member
  obtain ⟨pair, split, fits, groups⟩ := Regex.mem_ways_word.mp opened
  obtain ⟨y, captured, member⟩ := Regex.mem_ways_seq.mp member
  obtain ⟨z, closed, member⟩ := Regex.mem_ways_seq.mp member
  obtain rfl := List.mem_singleton.mp member
  obtain ⟨pair', split', fits', groups'⟩ := Regex.mem_ways_word.mp closed
  obtain ⟨u, inner, rfl⟩ := List.mem_map.mp captured
  obtain ⟨t, one, few⟩ := Regex.mem_ways_seq.mp inner
  obtain ⟨c, first, -, alike⟩ := Regex.mem_ways_one.mp one
  obtain ⟨text, later, -, alike'⟩ := Regex.mem_ways_few.mp few
  rw [(pair_fits same).mp fits] at split
  rw [(pair_fits same).mp fits'] at split'
  have held : x.rest = (c :: text) ++ u.rest := by rw [first, later, List.cons_append]
  refine ⟨c :: text, List.cons_ne_nil _ _, ?_, ?_⟩
  · rw [split, held, show u.rest = _ from split']
    simp
  · rw [groups']
    show (1, Regex.consumed x.rest u.rest) :: u.groups = _
    rw [held, Regex.consumed_append, alike', alike, groups]

/-- The first two marks behind a character close the span. -/
theorem first_spans {held after : List α} (clear : ¬ Doubled mark (held ++ [mark])) :
    (spans mark).first (mark :: mark :: c :: held ++ mark :: mark :: after) =
      some (⟨mark :: mark :: c :: held ++ [mark, mark], [(1, c :: held)]⟩, after) := by
  have same : ∀ c, decide (c = mark) = true ↔ c = mark := fun c => decide_eq_true_iff
  have pair : ∀ (rest : List α) groups,
      (Regex.word [(decide <| · = mark), (decide <| · = mark)]).ways ⟨[mark, mark] ++ rest, groups⟩ =
        [⟨rest, groups⟩] :=
    fun rest groups => Regex.ways_word_append ((pair_fits same).mpr rfl) rest groups
  have leads : (spans mark).Leads ⟨(mark :: mark :: c :: held ++ [mark, mark]) ++ after, []⟩
      ⟨after, [(1, c :: held)]⟩ := by
    have whole : (mark :: mark :: c :: held ++ [mark, mark]) ++ after =
        [mark, mark] ++ (c :: held ++ ([mark, mark] ++ after)) := by simp
    rw [whole]
    refine Regex.Leads.only (pair _ _) (Regex.Leads.groupSomeFew (fun _ _ => rfl) ?_
      (Regex.Leads.only (pair _ _) (Regex.leads_nothing _)))
    intro before d later split
    refine List.eq_nil_iff_forall_not_mem.mpr fun v member => ?_
    obtain ⟨x, closed, -⟩ := Regex.mem_ways_seq.mp member
    obtain ⟨pair', split', fits, -⟩ := Regex.mem_ways_word.mp closed
    rw [(pair_fits same).mp fits] at split'
    obtain ⟨rfl, next⟩ := List.cons.inj split'
    refine clear ?_
    rw [split, List.append_assoc]
    refine List.IsInfix.trans ?_ (List.suffix_append before _).isInfix
    refine doubled_cons.mpr (Or.inl ⟨rfl, ?_⟩)
    cases later with
    | nil => rfl
    | cons e later => exact congrArg some (List.cons.inj next).1
  have found := Regex.first_of_leads leads
  rw [← found]
  simp

/-- **What the substitution does at the head of a text**: it copies a character, where no span starts,
or replaces one. -/
theorem sub_cases (mark : α) (text : List α) : text = [] ∨
    (∃ c rest, text = c :: rest ∧
      (spans mark).sub (between mark) text = c :: (spans mark).sub (between mark) rest ∧
      (c = mark → rest.head? = some mark → ¬ Doubled mark (rest.drop 2))) ∨
    ∃ c held after, text = mark :: mark :: c :: held ++ mark :: mark :: after ∧
      ¬ Doubled mark (held ++ [mark]) ∧ (spans mark).sub (between mark) text =
        mark :: c :: held ++ mark :: (spans mark).sub (between mark) after := by
  cases text with
  | nil => exact Or.inl rfl
  | cons c rest =>
    cases found : (spans mark).first (c :: rest) with
    | some result =>
      obtain ⟨m, after⟩ := result
      obtain ⟨held, full, split, -⟩ := mem_ways_spans (Regex.mem_ways_of_first found)
      obtain ⟨d, held, rfl⟩ := List.exists_cons_of_ne_nil full
      rcases first_doubled mark (held ++ mark :: mark :: after) with none | ⟨before, after', cut, clear⟩
      · exact absurd ⟨held, after, by simp⟩ none
      · have split : c :: rest = mark :: mark :: d :: before ++ mark :: mark :: after' := by
          refine Eq.trans split ?_
          simp only [List.cons_append, cut]
        refine Or.inr (Or.inr ⟨d, before, after', split, clear, ?_⟩)
        rw [split, Regex.sub_hit (first_spans clear) (by simp)]
        simp [between, Regex.Match.group]
    | none =>
      refine Or.inr (Or.inl ⟨c, rest, rfl, Regex.sub_plain found, ?_⟩)
      rintro rfl next
      obtain ⟨rest, rfl⟩ := List.head?_eq_some_iff.mp next
      cases rest with
      | nil => exact not_doubled_nil
      | cons d rest =>
        rcases first_doubled c rest with none | ⟨before, after, rfl, clear⟩
        · exact none
        · rw [show c :: c :: d :: (before ++ c :: c :: after) =
            c :: c :: d :: before ++ c :: c :: after from rfl, first_spans clear] at found
          cases found

/-- The result starts as the text does. -/
theorem head_sub (mark : α) (text : List α) :
    ((spans mark).sub (between mark) text).head? = text.head? := by
  rcases sub_cases mark text with rfl | ⟨c, rest, rfl, eq, -⟩ | ⟨c, held, after, rfl, -, eq⟩
  · rfl
  · rw [eq]
    rfl
  · rw [eq]
    rfl

/-- **The substitution leaves no two marks side by side exactly where the marks settle.** -/
theorem doubled_sub_iff (mark : α) (text : List α) :
    ¬ Doubled mark ((spans mark).sub (between mark) text) ↔ settles mark false text = true := by
  induction size : text.length using Nat.strongRecOn generalizing text with
  | _ size ih =>
  subst size
  rcases sub_cases mark text with rfl | ⟨c, rest, rfl, eq, none⟩ | ⟨c, held, after, rfl, clear, eq⟩
  · exact iff_of_true not_doubled_nil rfl
  · have later := ih rest.length (Nat.lt_succ_self _) rest rfl
    rw [eq, doubled_cons, not_or, head_sub, later]
    by_cases opened : c = mark ∧ rest.head? = some mark
    · obtain ⟨rfl, next⟩ := opened
      -- a pair that nothing closes stays, and holds the bit
      have none := none rfl next
      obtain ⟨rest, rfl⟩ := List.head?_eq_some_iff.mp next
      refine iff_of_false (fun both => both.1 ⟨rfl, next⟩) ?_
      rw [settles_pair]
      cases rest with
      | nil => exact Bool.false_ne_true
      | cons d rest =>
        by_cases same : d = c
        · simp [same]
        · have unclosed : settles c true rest = false := settles_of_not_doubled none
          rw [Bool.not_false, settles_cons_of_ne same, unclosed, Bool.and_false]
          exact Bool.false_ne_true
    · rw [and_iff_right opened]
      by_cases same : c = mark
      · subst same
        rw [settles_mark fun next => opened ⟨rfl, next⟩]
      · rw [settles_cons_of_ne same]
  · have shorter : after.length < (mark :: mark :: c :: held ++ mark :: mark :: after).length := by
      simp only [List.length_append, List.length_cons]
      omega
    have later := ih after.length shorter after rfl
    rw [eq]
    simp only [List.cons_append]
    rw [settles_pair]
    by_cases same : c = mark
    · subst same
      refine iff_of_false (fun none => none doubled_pair) ?_
      simp
    · have rest : settles mark true (c :: (held ++ mark :: mark :: after)) =
          (decide (after.head? ≠ some mark) && settles mark false after) := by
        rw [settles_cons_of_ne same, settles_single clear, settles_pair]
        rfl
      have apart : ((c :: (held ++ mark :: mark :: after)).head? ≠ some mark) := fun next =>
        same (Option.some.inj next)
      rw [doubled_cons, doubled_cons, doubled_append clear, head_sub, Bool.not_false, rest,
        Bool.and_eq_true, Bool.and_eq_true, decide_eq_true_iff, decide_eq_true_iff, ← later]
      simp [same]

/-- Only marks come and go. -/
theorem filter_sub (mark : α) (text : List α) :
    ((spans mark).sub (between mark) text).filter (· ≠ mark) = text.filter (· ≠ mark) := by
  induction size : text.length using Nat.strongRecOn generalizing text with
  | _ size ih =>
  subst size
  rcases sub_cases mark text with rfl | ⟨c, rest, rfl, eq, -⟩ | ⟨c, held, after, rfl, -, eq⟩
  · rfl
  · rw [eq, List.filter_cons, List.filter_cons, ih rest.length (Nat.lt_succ_self _) rest rfl]
  · have shorter : after.length < (mark :: mark :: c :: held ++ mark :: mark :: after).length := by
      simp only [List.length_append, List.length_cons]
      omega
    rw [eq]
    have later := ih after.length shorter after rfl
    by_cases same : c = mark
    · simpa [same] using later
    · simpa [same] using later

end Marks

end DoubledMarks

end Freshet.Lib
