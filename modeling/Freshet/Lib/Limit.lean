/-
**`ORDER BY … LIMIT n`.**

What stands among the first `n` of a list in strict order is what has fewer than `n` ahead of it
(`mem_take_iff_countP`), so a row is selected under a limit exactly where fewer than `n` rows that match
come before it (`Table.mem_first`). Whatever is left out of a ranking is no better than what is in it
(`le_of_left_out`).
-/

import Freshet.Lib.Table
import Mathlib.Order.Defs.PartialOrder

namespace Freshet.Lib

section Lists

variable {α : Type}

/-- **The first `n` of a list in strict order.** -/
theorem mem_take_iff_countP {ahead : α → α → Bool} (asymm : ∀ a b, ahead a b = true → ahead b a = false)
    {items : List α} (sorted : items.Pairwise fun a b => ahead a b = true) {a : α} (member : a ∈ items)
    {n : ℕ} : a ∈ items.take n ↔ items.countP (fun b => ahead b a) < n := by
  induction items generalizing n with
  | nil => cases member
  | cons first rest ih =>
    obtain ⟨leads, sorted⟩ := List.pairwise_cons.mp sorted
    cases n with
    | zero => simp
    | succ m =>
      rw [List.take_succ_cons, List.mem_cons, List.countP_cons]
      rcases List.mem_cons.mp member with rfl | later
      · have alone : ahead a a = false := by
          cases itself : ahead a a with
          | false => rfl
          | true => exact itself.symm.trans (asymm a a itself)
        have behind : rest.countP (fun b => ahead b a) = 0 :=
          List.countP_eq_zero.mpr fun b inside => by
            rw [asymm a b (leads b inside)]
            exact Bool.false_ne_true
        rw [alone, behind]
        simp
      · have other : a ≠ first := by
          rintro rfl
          have itself := leads a later
          rw [asymm a a itself] at itself
          cases itself
        rw [ih sorted later, leads a later, if_pos rfl, or_iff_right other]
        exact Nat.succ_lt_succ_iff.symm

/-- **What a ranking leaves out is no better than what it keeps**, and it is full. -/
theorem le_of_left_out {κ : Type} [Preorder κ] {value : α → κ} {items : List α}
    (sorted : items.Pairwise fun a b => value b ≤ value a) {n : ℕ} {a : α} (member : a ∈ items)
    (left : a ∉ items.take n) :
    (items.take n).length = n ∧ ∀ b ∈ items.take n, value a ≤ value b := by
  have dropped : a ∈ items.drop n := by
    rw [← List.take_append_drop n items] at member
    exact (List.mem_append.mp member).resolve_left left
  refine ⟨?_, fun b inside => ?_⟩
  · rw [List.length_take]
    have some' := List.length_pos_of_mem dropped
    rw [List.length_drop] at some'
    omega
  · rw [← List.take_append_drop n items] at sorted
    exact (List.pairwise_append.mp sorted).2.2 b inside a dropped

end Lists

namespace Table

variable {K V : Type} [DecidableEq K]

/-- `SELECT … WHERE matched ORDER BY before LIMIT n`. -/
def first (n : ℕ) (matched : K → V → Bool) (before : (Σ _ : K, V) → (Σ _ : K, V) → Bool)
    (table : Table K V) : List (Σ _ : K, V) :=
  (select matched before table).take n

/-- The rows that match and come before a row. -/
def ahead (matched : K → V → Bool) (before : (Σ _ : K, V) → (Σ _ : K, V) → Bool)
    (table : Table K V) (entry : Σ _ : K, V) : ℕ :=
  table.entries.countP fun other =>
    matched other.1 other.2 && (before other entry && decide (other.1 ≠ entry.1))

section First

variable {matched : K → V → Bool} {before : (Σ _ : K, V) → (Σ _ : K, V) → Bool} {table : Table K V}

omit [DecidableEq K] in
theorem distinct_first (n : ℕ) (table : Table K V) :
    (first n matched before table).Pairwise fun a b => a.1 ≠ b.1 :=
  (distinct_select matched before table).sublist (List.take_sublist n _)

/-- **A row is among the first `n` exactly where it matches and fewer than `n` that match come before
it.** -/
theorem mem_first (total : ∀ a b, before a b = true ∨ before b a = true)
    (trans : ∀ a b c, before a b = true → before b c = true → before a c = true)
    (antisymm : ∀ a b : Σ _ : K, V, before a b = true → before b a = true → a.1 = b.1)
    {n : ℕ} {k : K} {row : V} :
    (⟨k, row⟩ : Σ _ : K, V) ∈ first n matched before table ↔
      table.lookup k = some row ∧ matched k row = true ∧ ahead matched before table ⟨k, row⟩ < n := by
  unfold first
  by_cases found : (⟨k, row⟩ : Σ _ : K, V) ∈ select matched before table
  · have strict : (select matched before table).Pairwise fun a b =>
        (before a b && decide (a.1 ≠ b.1)) = true :=
      ((pairwise_select total trans table).and (distinct_select matched before table)).imp
        fun both => Bool.and_eq_true_iff.mpr ⟨both.1, decide_eq_true both.2⟩
    have asymm : ∀ a b : Σ _ : K, V, (before a b && decide (a.1 ≠ b.1)) = true →
        (before b a && decide (b.1 ≠ a.1)) = false := by
      intro a b held
      obtain ⟨le, apart⟩ := Bool.and_eq_true_iff.mp held
      cases ge : before b a with
      | false => rfl
      | true => exact absurd (antisymm a b le ge) (of_decide_eq_true apart)
    have perm : (select matched before table).Perm
        (table.entries.filter fun entry => matched entry.1 entry.2) := List.perm_insertionSort _ _
    have counted : (select matched before table).countP
        (fun other => before other ⟨k, row⟩ && decide (other.1 ≠ k)) =
          ahead matched before table ⟨k, row⟩ := by
      rw [perm.countP_eq, List.countP_filter]
      unfold ahead
      exact List.countP_congr fun other _ => by simp only [Bool.and_comm]
    rw [mem_take_iff_countP asymm strict found, counted]
    obtain ⟨lookup, held⟩ := mem_select.mp found
    exact ⟨fun few => ⟨lookup, held, few⟩, fun all => all.2.2⟩
  · refine ⟨fun member => absurd (List.mem_of_mem_take member) found, fun all => ?_⟩
    exact absurd (mem_select.mpr ⟨all.1, all.2.1⟩) found

end First

end Table

end Freshet.Lib
