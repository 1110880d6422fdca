/-
**The modelled batch arm of the freshness report.**

An update waits for the next refresh boundary after it was posted (`batchStaleness`), and the sweep
takes the mean wait at each of `n` places where the boundary may sit in the interval. Over these
places the waits of one update run through one number modulo the step and its shifts, so the mean of
the sweep is half an interval up to half a step (`sweep_mean`). All of it is exact: the program's
floating-point numbers are rational numbers here.
-/

import Freshet.Lib.Residue
import Mathlib.Algebra.BigOperators.Group.List.Lemmas
import Mathlib.Data.Rat.Floor

namespace Freshet.Eval

open Freshet.Lib

/-- `batch_staleness`. -/
def batchStaleness (postedAt intervalS phaseS : ℚ) : ℚ :=
  intervalS - residue (postedAt - phaseS) intervalS

/-- `sum(values) / len(values)`. -/
def mean (values : List ℚ) : ℚ := values.sum / values.length

/-- **`batch_alignment_sweep`.** -/
def batchAlignmentSweep (postedAts : List ℚ) (intervalS : ℚ) (nAlignments : ℕ) : List ℚ :=
  if postedAts = [] then []
  else
    let step := intervalS / nAlignments
    (List.range nAlignments).map fun k : ℕ =>
      mean (postedAts.map fun p => batchStaleness p intervalS (k * step))

/-- A wait is positive and no longer than the interval. -/
theorem batchStaleness_bounds {intervalS : ℚ} (positive : 0 < intervalS) (postedAt phaseS : ℚ) :
    0 < batchStaleness postedAt intervalS phaseS ∧
      batchStaleness postedAt intervalS phaseS ≤ intervalS := by
  have low := residue_nonneg positive (postedAt - phaseS)
  have high := residue_lt positive (postedAt - phaseS)
  unfold batchStaleness
  constructor <;> linarith

/-! ### Means -/

theorem sum_eq_mul_mean {values : List ℚ} (some' : values ≠ []) :
    values.sum = values.length * mean values := by
  have positive : (values.length : ℚ) ≠ 0 := by
    rw [Nat.cast_ne_zero, Ne, List.length_eq_zero_iff]
    exact some'
  unfold mean
  field_simp

/-- The mean of one value less another. -/
theorem mean_map_sub (c d : ℚ) (f : ℚ → ℚ) {values : List ℚ} (some' : values ≠ []) :
    mean (values.map fun p => c - d * f p) = c - d * mean (values.map f) := by
  have positive : (values.length : ℚ) ≠ 0 := by
    rw [Nat.cast_ne_zero, Ne, List.length_eq_zero_iff]
    exact some'
  have total : (values.map fun p => c - d * f p).sum = values.length * c - d * (values.map f).sum := by
    clear positive some'
    induction values with
    | nil => simp
    | cons p rest ih =>
      simp only [List.map_cons, List.sum_cons, ih, List.length_cons]
      push_cast
      ring
  unfold mean
  rw [total, List.length_map, List.length_map]
  field_simp

theorem mean_bounds {values : List ℚ} (some' : values ≠ []) {low high : ℚ}
    (within : ∀ p ∈ values, low ≤ p ∧ p < high) : low ≤ mean values ∧ mean values < high := by
  have positive : 0 < (values.length : ℚ) := by
    rw [Nat.cast_pos, List.length_pos_iff]
    exact some'
  have sums : values.length * low ≤ values.sum ∧ values.sum < values.length * high := by
    clear positive
    induction values with
    | nil => exact absurd rfl some'
    | cons p rest ih =>
      obtain ⟨here, within⟩ := List.forall_mem_cons.mp within
      rw [List.sum_cons, List.length_cons]
      push_cast
      cases rest with
      | nil => simpa using here
      | cons q rest =>
        obtain ⟨lower, upper⟩ := ih (List.cons_ne_nil _ _) within
        constructor <;> linarith
  unfold mean
  rw [le_div_iff₀ positive, div_lt_iff₀ positive]
  constructor <;> linarith

/-! ### The sweep -/

/-- The sums over the places and over the updates are exchanged. -/
theorem sum_map_mean {values : List ℚ} (places : List ℕ) (f : ℚ → ℕ → ℚ) :
    (places.map fun i => mean (values.map fun p => f p i)).sum =
      mean (values.map fun p => (places.map fun i => f p i).sum) := by
  induction places with
  | nil => simp [mean]
  | cons i places ih =>
    rw [List.map_cons, List.sum_cons, ih]
    unfold mean
    simp only [List.length_map, List.map_cons, List.sum_cons]
    rw [← add_div, ← List.sum_map_add]

/-- **The mean of the sweep.** -/
theorem sweep_mean {postedAts : List ℚ} (some' : postedAts ≠ []) {intervalS : ℚ}
    (positive : 0 < intervalS) {nAlignments : ℕ} (places : 0 < nAlignments) :
    mean (batchAlignmentSweep postedAts intervalS nAlignments) =
      intervalS / 2 + intervalS / nAlignments / 2 -
        mean (postedAts.map fun p => residue p (intervalS / nAlignments)) := by
  have count : (nAlignments : ℚ) ≠ 0 := by
    rw [Nat.cast_ne_zero]
    omega
  have step : 0 < intervalS / nAlignments := div_pos positive (by exact_mod_cast places)
  have whole : (nAlignments : ℚ) * (intervalS / nAlignments) = intervalS := by field_simp
  -- the waits of one update at all places
  have each : ∀ p : ℚ, ((List.range nAlignments).map fun i : ℕ =>
      batchStaleness p intervalS (i * (intervalS / nAlignments))).sum =
      nAlignments * (intervalS / 2 + intervalS / nAlignments / 2) -
        nAlignments * residue p (intervalS / nAlignments) := by
    intro p
    have sum := sum_residue step p places
    rw [whole] at sum
    rw [← List.sum_toFinset _ List.nodup_range, List.toFinset_range]
    unfold batchStaleness
    rw [Finset.sum_sub_distrib, sum, Finset.sum_const, Finset.card_range, nsmul_eq_mul]
    field_simp
    ring
  have total : (batchAlignmentSweep postedAts intervalS nAlignments).sum =
      nAlignments * (intervalS / 2 + intervalS / nAlignments / 2) - nAlignments *
        mean (postedAts.map fun p => residue p (intervalS / nAlignments)) := by
    unfold batchAlignmentSweep
    rw [if_neg some', sum_map_mean]
    simp only [each]
    exact mean_map_sub _ _ _ some'
  have length : (batchAlignmentSweep postedAts intervalS nAlignments).length = nAlignments := by
    unfold batchAlignmentSweep
    rw [if_neg some', List.length_map, List.length_range]
  rw [mean, total, length]
  field_simp

/-- **The modelled batch arm does not depend on the alignment.** -/
theorem batch_arm_aligned {postedAts : List ℚ} (some' : postedAts ≠ []) {intervalS : ℚ}
    (positive : 0 < intervalS) {nAlignments : ℕ} (places : 1 ≤ nAlignments) :
    (∀ postedAt phaseS, 0 < batchStaleness postedAt intervalS phaseS ∧
      batchStaleness postedAt intervalS phaseS ≤ intervalS) ∧
    mean (batchAlignmentSweep postedAts intervalS nAlignments) =
      intervalS / 2 + intervalS / nAlignments / 2 -
        mean (postedAts.map fun p => residue p (intervalS / nAlignments)) ∧
    intervalS / 2 - intervalS / nAlignments / 2 <
      mean (batchAlignmentSweep postedAts intervalS nAlignments) ∧
    mean (batchAlignmentSweep postedAts intervalS nAlignments) ≤
      intervalS / 2 + intervalS / nAlignments / 2 ∧
    ∀ moved : List ℚ, List.Forall₂
      (fun p p' => ∃ times : ℤ, p' = p + times * (intervalS / nAlignments)) postedAts moved →
      mean (batchAlignmentSweep moved intervalS nAlignments) =
        mean (batchAlignmentSweep postedAts intervalS nAlignments) := by
  have step : 0 < intervalS / nAlignments := div_pos positive (by exact_mod_cast places)
  have within : ∀ r ∈ postedAts.map fun p => residue p (intervalS / nAlignments),
      0 ≤ r ∧ r < intervalS / nAlignments := by
    intro r member
    obtain ⟨p, -, rfl⟩ := List.mem_map.mp member
    exact ⟨residue_nonneg step p, residue_lt step p⟩
  obtain ⟨low, high⟩ := mean_bounds (by simpa using some') within
  rw [sweep_mean some' positive places]
  refine ⟨batchStaleness_bounds positive, rfl, by linarith, by linarith, fun moved shifted => ?_⟩
  have some'' : moved ≠ [] := by
    rintro rfl
    cases shifted
    exact some' rfl
  have same : (moved.map fun p => residue p (intervalS / nAlignments)) =
      postedAts.map fun p => residue p (intervalS / nAlignments) := by
    clear within some'' some' low high
    induction shifted with
    | nil => rfl
    | cons here rest ih =>
      obtain ⟨times, rfl⟩ := here
      rw [List.map_cons, List.map_cons, ih, residue_add_mul step]
  rw [sweep_mean some'' positive places, same]

theorem batch_arm_aligned_hour :
    mean (batchAlignmentSweep [1, 2, 7 / 2] 3600 3600) = 1800 + 1 / 3 := by
  have aligned := (batch_arm_aligned (show [1, 2, (7 : ℚ) / 2] ≠ [] by simp)
    (show (0 : ℚ) < 3600 by norm_num) (show 1 ≤ 3600 by norm_num)).2.1
  have residues : mean ([1, 2, 7 / 2].map fun p => residue p (3600 / (3600 : ℕ))) = 1 / 6 := by
    decide +kernel
  rw [aligned, residues]
  norm_num

end Freshet.Eval
