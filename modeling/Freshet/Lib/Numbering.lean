/-
**Numbered names.**

`numbered` gives each item of a list its ordinal among the equal ones, from the head on. No two items
get the same name and number (`nodup_numbered`), and one more item in front leaves the others' numbers
alone exactly when it equals none of them (`numbered_bump_iff`).

`suffixed` writes a number behind a name, and is read back (`suffixed_inj`).
-/

import Mathlib.Data.List.Nodup
import Mathlib.Logic.Function.Basic

namespace Freshet.Lib

/-! ### Ordinals -/

section Ordinals

variable {α : Type} [DecidableEq α]

/-- One more `item` has been met. -/
def bump (count : α → Nat) (item : α) : α → Nat := Function.update count item (count item + 1)

/-- Each item with the number of equal ones met before. -/
def numbered (count : α → Nat) : List α → List (α × Nat)
  | [] => []
  | item :: later => (item, count item) :: numbered (bump count item) later

variable {count : α → Nat}

theorem map_numbered (count : α → Nat) (items : List α) :
    (numbered count items).map Prod.fst = items := by
  induction items generalizing count with
  | nil => rfl
  | cons item later ih =>
    unfold numbered
    rw [List.map_cons, ih]

theorem le_bump (count : α → Nat) (item other : α) : count other ≤ bump count item other := by
  unfold bump
  by_cases same : other = item
  · subst same
    rw [Function.update_self]
    exact Nat.le_succ _
  · exact Nat.le_of_eq (Function.update_of_ne same _ _).symm

/-- No ordinal is below the count it began with. -/
theorem count_le_of_mem {items : List α} {item : α} {ordinal : Nat}
    (member : (item, ordinal) ∈ numbered count items) : count item ≤ ordinal := by
  induction items generalizing count with
  | nil => exact absurd member List.not_mem_nil
  | cons first later ih =>
    unfold numbered at member
    rcases List.mem_cons.mp member with here | there
    · obtain ⟨rfl, rfl⟩ := Prod.mk.inj here
      exact Nat.le_refl _
    · exact Nat.le_trans (le_bump count first item) (ih there)

/-- An ordinal is below the count it began with and the number of items. -/
theorem lt_of_mem {items : List α} {item : α} {ordinal : Nat}
    (member : (item, ordinal) ∈ numbered count items) : ordinal < count item + items.length := by
  induction items generalizing count with
  | nil => exact absurd member List.not_mem_nil
  | cons first later ih =>
    unfold numbered at member
    rw [List.length_cons]
    rcases List.mem_cons.mp member with here | there
    · obtain ⟨rfl, rfl⟩ := Prod.mk.inj here
      omega
    · have below := ih there
      have step : bump count first item ≤ count item + 1 := by
        unfold bump
        by_cases same : item = first
        · subst same
          exact Nat.le_of_eq (Function.update_self _ _ _)
        · rw [Function.update_of_ne same]
          omega
      omega

/-- **No two items get the same name and number.** -/
theorem nodup_numbered (count : α → Nat) (items : List α) : (numbered count items).Nodup := by
  induction items generalizing count with
  | nil => exact List.nodup_nil
  | cons item later ih =>
    unfold numbered
    refine List.nodup_cons.mpr ⟨fun member => ?_, ih _⟩
    have above := count_le_of_mem member
    unfold bump at above
    rw [Function.update_self] at above
    omega

/-- **One more item in front leaves the numbers alone exactly when it is none of the others.** -/
theorem numbered_bump_iff {item : α} {items : List α} :
    numbered (bump count item) items = numbered count items ↔ item ∉ items := by
  induction items generalizing count with
  | nil => exact ⟨fun _ => List.not_mem_nil, fun _ => rfl⟩
  | cons first later ih =>
    unfold numbered
    by_cases same : first = item
    · subst same
      have moved : bump count first first ≠ count first := by
        unfold bump
        rw [Function.update_self]
        omega
      refine ⟨fun equal => absurd ?_ moved, fun absent => absurd List.mem_cons_self absent⟩
      exact (Prod.mk.inj (List.cons.inj equal).1).2
    · have kept : bump count item first = count first := Function.update_of_ne same _ _
      have swap : bump (bump count item) first = bump (bump count first) item := by
        unfold bump
        rw [Function.update_of_ne same, Function.update_of_ne (Ne.symm same),
          Function.update_comm same]
      rw [kept, swap, List.cons.injEq, and_iff_right rfl, ih, List.mem_cons, not_or,
        and_iff_right (Ne.symm same)]

end Ordinals

/-! ### A number behind a name -/

/-- The name, a separator and the decimal digits of the number. -/
def suffixed (name : List Char) (separator : Char) (n : Nat) : List Char :=
  name ++ separator :: Nat.toDigits 10 n

/-- What stands behind the last separator is read back. -/
theorem append_separator_inj {α : Type} {separator : α} {name name' tail tail' : List α}
    (clear : separator ∉ tail) (clear' : separator ∉ tail')
    (same : name ++ separator :: tail = name' ++ separator :: tail') : name = name' ∧ tail = tail' := by
  rcases List.append_eq_append_iff.mp same with ⟨more, rfl, eq⟩ | ⟨more, rfl, eq⟩
  · cases more with
    | nil => exact ⟨(List.append_nil _).symm, (List.cons.inj eq).2⟩
    | cons first more =>
      obtain ⟨-, rfl⟩ := List.cons.inj eq
      exact absurd (List.mem_append_right _ List.mem_cons_self) clear
  · cases more with
    | nil => exact ⟨List.append_nil _, (List.cons.inj eq).2.symm⟩
    | cons first more =>
      obtain ⟨-, rfl⟩ := List.cons.inj eq
      exact absurd (List.mem_append_right _ List.mem_cons_self) clear'

/-- What stands before the first separator is read back. -/
theorem separator_append_inj {α : Type} {separator : α} {name name' tail tail' : List α}
    (clear : separator ∉ name) (clear' : separator ∉ name')
    (same : name ++ separator :: tail = name' ++ separator :: tail') : name = name' ∧ tail = tail' := by
  have reversed := congrArg List.reverse same
  rw [List.reverse_append, List.reverse_append, List.reverse_cons, List.reverse_cons,
    List.append_assoc, List.append_assoc] at reversed
  obtain ⟨tails, names⟩ := append_separator_inj
    (mt List.mem_reverse.mp clear) (mt List.mem_reverse.mp clear') reversed
  exact ⟨List.reverse_injective names, List.reverse_injective tails⟩

/-- **The name and the number are read back.** -/
theorem suffixed_inj {name name' : List Char} {separator : Char} {n n' : Nat}
    (other : separator.isDigit = false)
    (same : suffixed name separator n = suffixed name' separator n') : name = name' ∧ n = n' := by
  have clear : ∀ n, separator ∉ Nat.toDigits 10 n := by
    intro n member
    rw [Nat.isDigit_of_mem_toDigits (by decide) (by decide) member] at other
    exact absurd other (by decide)
  obtain ⟨names, digits⟩ := append_separator_inj (clear n) (clear n') same
  refine ⟨names, ?_⟩
  rw [← @Nat.ofDigitChars_ten_toDigits n, digits, Nat.ofDigitChars_ten_toDigits]

end Freshet.Lib
