/-
**Order statistics, means and rounding.**

What stands at place `k` of a sorted list has at least `k + 1` of it at or below itself and at most `k`
below (`rank_of_sorted`), and sorting forgets the order (`mergeSort_eq_of_perm`). A mean lies where all
its values lie (`between_of_sum`), and rounding keeps the order (`roundEven_mono`).
-/

import Mathlib.Algebra.Order.Field.Rat
import Mathlib.Data.Rat.Floor
import Mathlib.Order.Defs.LinearOrder
import Mathlib.Tactic.Linarith
import Mathlib.Tactic.SplitIfs

namespace Freshet.Lib

/-! ### Sorted lists -/

section Sorted

variable {α : Type} [LinearOrder α]

theorem pairwise_mergeSort_le (values : List α) :
    (values.mergeSort fun a b => decide (a ≤ b)).Pairwise fun a b => a ≤ b := by
  have sorted := @List.pairwise_mergeSort α (fun a b => decide (a ≤ b))
    (fun a b c one two => decide_eq_true ((of_decide_eq_true one).trans (of_decide_eq_true two)))
    (fun a b => by simpa using le_total a b) values
  exact sorted.imp of_decide_eq_true

/-- **Sorting forgets the order.** -/
theorem mergeSort_eq_of_perm {values values' : List α} (perm : values.Perm values') :
    (values.mergeSort fun a b => decide (a ≤ b)) = values'.mergeSort fun a b => decide (a ≤ b) := by
  refine List.Perm.eq_of_pairwise (fun a b _ _ => le_antisymm) (pairwise_mergeSort_le values)
    (pairwise_mergeSort_le values') ?_
  exact (List.mergeSort_perm values _).trans (perm.trans (List.mergeSort_perm values' _).symm)

theorem getElem?_mono_of_sorted {sorted : List α} (ordered : sorted.Pairwise fun a b => a ≤ b)
    {j k : ℕ} (le : j ≤ k) {a b : α} (here : sorted[j]? = some a) (there : sorted[k]? = some b) :
    a ≤ b := by
  obtain ⟨inside, rfl⟩ := List.getElem?_eq_some_iff.mp here
  obtain ⟨inside', rfl⟩ := List.getElem?_eq_some_iff.mp there
  rcases Nat.lt_or_eq_of_le le with less | rfl
  · exact List.pairwise_iff_getElem.mp ordered j k inside inside' less
  · exact le_rfl

/-- **The rank of what stands at a place.** -/
theorem rank_of_sorted {sorted : List α} (ordered : sorted.Pairwise fun a b => a ≤ b) {k : ℕ} {v : α}
    (here : sorted[k]? = some v) :
    k + 1 ≤ sorted.countP (fun a => decide (a ≤ v)) ∧ sorted.countP (fun a => decide (a < v)) ≤ k := by
  obtain ⟨inside, -⟩ := List.getElem?_eq_some_iff.mp here
  constructor
  · -- everything up to the place is at most its value
    have front : ∀ a ∈ sorted.take (k + 1), decide (a ≤ v) = true := by
      intro a member
      obtain ⟨j, at', same⟩ := List.mem_iff_getElem.mp member
      rw [List.length_take] at at'
      rw [List.getElem_take] at same
      refine decide_eq_true (getElem?_mono_of_sorted ordered (show j ≤ k by omega) ?_ here)
      rw [List.getElem?_eq_getElem (by omega), same]
    have count := List.countP_eq_length.mpr front
    rw [List.length_take, Nat.min_eq_left inside] at count
    exact count.symm.le.trans (List.take_sublist (k + 1) sorted).countP_le
  · -- nothing from the place on is below its value
    have back : ∀ a ∈ sorted.drop k, ¬ decide (a < v) = true := by
      intro a member
      obtain ⟨j, at', same⟩ := List.mem_iff_getElem.mp member
      rw [List.length_drop] at at'
      rw [List.getElem_drop] at same
      rw [decide_eq_true_eq, not_lt]
      refine getElem?_mono_of_sorted ordered (Nat.le_add_right k j) here ?_
      rw [List.getElem?_eq_getElem (by omega), same]
    rw [← List.take_append_drop k sorted, List.countP_append, List.countP_eq_zero.mpr back, Nat.add_zero]
    exact List.countP_le_length.trans (List.length_take_le k sorted)

end Sorted

/-! ### Sums -/

theorem between_of_sum {values : List ℚ} {low high : ℚ} (within : ∀ a ∈ values, low ≤ a ∧ a ≤ high) :
    values.length * low ≤ values.sum ∧ values.sum ≤ values.length * high := by
  induction values with
  | nil => simp
  | cons a rest ih =>
    obtain ⟨here, within⟩ := List.forall_mem_cons.mp within
    obtain ⟨lower, upper⟩ := ih within
    rw [List.sum_cons, List.length_cons]
    push_cast
    constructor <;> linarith

/-! ### Rounding -/

/-- The nearest integer, and the even one of two. -/
def roundEven (x : ℚ) : ℤ :=
  if x - ⌊x⌋ < 1 / 2 then ⌊x⌋
  else if 1 / 2 < x - ⌊x⌋ then ⌊x⌋ + 1
  else ⌊x⌋ + ⌊x⌋ % 2

theorem roundEven_within (x : ℚ) : ⌊x⌋ ≤ roundEven x ∧ roundEven x ≤ ⌊x⌋ + 1 := by
  unfold roundEven
  split_ifs <;> constructor <;> omega

/-- Rounding is off by a half at most. -/
theorem abs_sub_roundEven_le (x : ℚ) : |x - roundEven x| ≤ 1 / 2 := by
  have below := Int.floor_le x
  have above := Int.lt_floor_add_one x
  unfold roundEven
  split_ifs with low high
  · rw [abs_of_nonneg (by linarith)]
    exact low.le
  · push_cast
    rw [abs_of_nonpos (by linarith)]
    linarith
  · have half : x - ⌊x⌋ = 1 / 2 := le_antisymm (not_lt.mp high) (not_lt.mp low)
    rcases Int.emod_two_eq_zero_or_one ⌊x⌋ with even | odd
    · rw [even, Int.add_zero, half, abs_of_pos one_half_pos]
    · rw [odd]
      push_cast
      rw [abs_of_nonpos (by linarith)]
      linarith

/-- **Rounding keeps the order.** -/
theorem roundEven_mono {x y : ℚ} (le : x ≤ y) : roundEven x ≤ roundEven y := by
  rcases lt_or_eq_of_le (Int.floor_le_floor le) with below | same
  · have one := (roundEven_within x).2
    have two := (roundEven_within y).1
    omega
  · unfold roundEven
    rw [← same]
    split_ifs with low high half above low' high' half' <;> first | omega | (exfalso; linarith)

end Freshet.Lib
