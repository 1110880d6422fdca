/-
**Remainders in an ordered field.**

`residue x m` is the remainder of `x` on division by `m`, rounded down. It is the only number in
`[0, m)` that differs from `x` by a multiple of `m` (`residue_unique`). Taken at `n` points that are
`s` apart, the remainders modulo `n * s` are those of one point modulo `s`, each moved by another
multiple of `s`: so their sum is known (`sum_residue`).
-/

import Mathlib.Algebra.BigOperators.Intervals
import Mathlib.Algebra.BigOperators.Ring.Finset
import Mathlib.Algebra.Order.Floor.Ring
import Mathlib.Tactic.FieldSimp
import Mathlib.Tactic.Linarith
import Mathlib.Tactic.Ring

namespace Freshet.Lib

variable {k : Type} [Field k] [LinearOrder k] [FloorRing k]

/-- `x % m`. -/
def residue (x m : k) : k := x - m * ⌊x / m⌋

variable [IsStrictOrderedRing k] {x m s : k}

omit [IsStrictOrderedRing k] in
theorem residue_eq_mul_fract (positive : 0 < m) (x : k) : residue x m = m * Int.fract (x / m) := by
  unfold residue Int.fract
  field_simp

theorem residue_nonneg (positive : 0 < m) (x : k) : 0 ≤ residue x m := by
  rw [residue_eq_mul_fract positive]
  exact mul_nonneg positive.le (Int.fract_nonneg _)

theorem residue_lt (positive : 0 < m) (x : k) : residue x m < m := by
  rw [residue_eq_mul_fract positive]
  exact mul_lt_of_lt_one_right positive (Int.fract_lt_one _)

/-- **What makes a number the remainder.** -/
theorem residue_unique (positive : 0 < m) {r : k} {q : ℤ} (split : x = m * q + r) (low : 0 ≤ r)
    (high : r < m) : residue x m = r := by
  have floor : ⌊x / m⌋ = q := by
    rw [Int.floor_eq_iff, le_div_iff₀ positive, div_lt_iff₀ positive, split]
    constructor <;> nlinarith
  unfold residue
  rw [floor, split]
  ring

theorem residue_add_mul (positive : 0 < m) (x : k) (q : ℤ) : residue (x + q * m) m = residue x m := by
  refine residue_unique (q := ⌊x / m⌋ + q) positive ?_ (residue_nonneg positive x)
    (residue_lt positive x)
  unfold residue
  push_cast
  ring

/-- The remainders of `q, q - 1, …` are every number below `n`, once each. -/
theorem sum_emod (q : ℤ) {n : ℕ} (positive : 0 < n) :
    ∑ i ∈ Finset.range n, (q - i) % n = ∑ i ∈ Finset.range n, (i : ℤ) := by
  have some' : (n : ℤ) ≠ 0 := by omega
  have low : ∀ i : ℕ, 0 ≤ (q - i) % n := fun i => Int.emod_nonneg _ some'
  have inside : ∀ i ∈ Finset.range n, ((q - i) % n).toNat ∈ Finset.range n := by
    intro i _
    have high := Int.emod_lt_of_pos (q - i) (show (0 : ℤ) < n by omega)
    have := low i
    rw [Finset.mem_range]
    omega
  -- the map is its own inverse
  have back : ∀ i ∈ Finset.range n, ((q - (((q - i) % n).toNat : ℕ)) % n).toNat = i := by
    intro i member
    rw [Finset.mem_range] at member
    rw [Int.toNat_of_nonneg (low i), Int.sub_emod, Int.emod_emod, ← Int.sub_emod]
    rw [show q - (q - i) = (i : ℤ) by ring, Int.emod_eq_of_lt (by omega) (by omega)]
    exact Int.toNat_natCast i
  refine Finset.sum_nbij' (fun i => ((q - i) % n).toNat) (fun i => ((q - i) % n).toNat) inside
    inside back back ?_
  intro i _
  exact (Int.toNat_of_nonneg (low i)).symm

/-- **The remainders modulo `n * s` at `n` points that are `s` apart.** -/
theorem sum_residue (positive : 0 < s) (x : k) {n : ℕ} (some' : 0 < n) :
    ∑ i ∈ Finset.range n, residue (x - i * s) (n * s) =
      n * residue x s + s * ((n - 1) * n / 2) := by
  have each : ∀ i ∈ Finset.range n, residue (x - i * s) (n * s) =
      s * (((⌊x / s⌋ - i) % n : ℤ) : k) + residue x s := by
    intro i _
    have low := Int.emod_nonneg (⌊x / s⌋ - i) (show (n : ℤ) ≠ 0 by omega)
    have high := Int.emod_lt_of_pos (⌊x / s⌋ - i) (show (0 : ℤ) < n by omega)
    have whole := Int.emod_add_mul_ediv (⌊x / s⌋ - i) n
    have low' : (0 : k) ≤ (((⌊x / s⌋ - i) % n : ℤ) : k) := by exact_mod_cast low
    have high' : (((⌊x / s⌋ - i) % n : ℤ) : k) + 1 ≤ n := by exact_mod_cast high
    have positive' : 0 < (n : k) * s := mul_pos (by exact_mod_cast some') positive
    refine residue_unique (q := (⌊x / s⌋ - i) / n) positive' ?_ ?_ ?_
    · have whole' : (((⌊x / s⌋ - i) % n : ℤ) : k) + n * (((⌊x / s⌋ - i) / n : ℤ) : k) =
          ⌊x / s⌋ - i := by exact_mod_cast whole
      have split : x = residue x s + s * ⌊x / s⌋ := by
        unfold residue
        ring
      calc x - i * s = residue x s + s * (⌊x / s⌋ - i) := by rw [mul_sub]; linarith
        _ = _ := by rw [← whole']; ring
    · exact add_nonneg (mul_nonneg positive.le low') (residue_nonneg positive x)
    · have below := residue_lt positive x
      nlinarith
  rw [Finset.sum_congr rfl each, Finset.sum_add_distrib, ← Finset.mul_sum, Finset.sum_const,
    Finset.card_range, nsmul_eq_mul]
  have gauss : ∑ i ∈ Finset.range n, (((⌊x / s⌋ - i) % n : ℤ) : k) = (n - 1) * n / 2 := by
    have total : ((∑ i ∈ Finset.range n, i : ℕ) : k) * 2 = n * (n - 1) := by
      have nat := Finset.sum_range_id_mul_two n
      have cast : ((n - 1 : ℕ) : k) = n - 1 := by
        rw [Nat.cast_sub (by omega)]
        simp
      rw [← cast]
      exact_mod_cast nat
    rw [← Int.cast_sum, sum_emod _ some']
    push_cast at total ⊢
    linarith
  rw [gauss]
  ring

end Freshet.Lib
