/-
**The text of a vector**: `vec_literal`, which is what the database is sent for the column
`embedding vector(768)`. It writes nine significant digits of each double, so what it says of one is off
by half a unit of the ninth digit at most (`nineDigits_nearest`).
-/

import Freshet.Lib.Summary
import Mathlib.Algebra.Order.Floor.Semifield
import Mathlib.Data.Int.Log
import Mathlib.Data.List.DropRight

namespace Freshet.Pipeline

open Freshet.Lib

/-- A vector as the encoder gives it: the bits of its doubles. -/
abbrev Embedding := List UInt64

/-- What the column holds of a vector: the bits of its 768 single-precision numbers. -/
abbrev Column := Vector UInt32 768

/-! ### A double -/

/-- The bits of the exponent. -/
def exponentBits (x : UInt64) : ℕ := (x >>> 52 &&& 0x7ff).toNat

def fractionBits (x : UInt64) : ℕ := (x &&& 0xfffffffffffff).toNat

/-- The absolute value of a finite double. -/
def magnitude (x : UInt64) : ℚ :=
  if exponentBits x = 0 then fractionBits x * 2 ^ (-1074 : ℤ)
  else (2 ^ 52 + fractionBits x) * 2 ^ ((exponentBits x : ℤ) - 1075)

/-! ### Nine digits -/

/-- Nine significant digits of a positive number, and the power of ten that the first stands for. -/
def nineDigits (x : ℚ) : ℕ × ℤ :=
  let exponent := Int.log 10 x
  let digits := (roundEven (x / 10 ^ (exponent - 8))).toNat
  if digits = 10 ^ 9 then (10 ^ 8, exponent + 1) else (digits, exponent)

/-- The digits before they are rounded. -/
theorem scaled_bounds {x : ℚ} (positive : 0 < x) :
    (10 : ℚ) ^ 8 ≤ x / 10 ^ (Int.log 10 x - 8) ∧ x / 10 ^ (Int.log 10 x - 8) < (10 : ℚ) ^ 9 := by
  have unit : (0 : ℚ) < 10 ^ (Int.log 10 x - 8) := zpow_pos (by norm_num) _
  have scaled : ∀ n : ℕ, (10 : ℚ) ^ n * 10 ^ (Int.log 10 x - 8) = 10 ^ (Int.log 10 x + (n - 8)) := by
    intro n
    rw [← zpow_natCast, ← zpow_add₀ (by norm_num)]
    congr 1
    omega
  constructor
  · rw [le_div_iff₀ unit, scaled]
    simpa using Int.zpow_log_le_self (b := 10) (by norm_num) positive
  · rw [div_lt_iff₀ unit, scaled]
    simpa using Int.lt_zpow_succ_log_self (b := 10) (by norm_num) x

/-- **The nine digits are nearest**: what they say is off by half a unit of the last at most. -/
theorem nineDigits_nearest {x : ℚ} (positive : 0 < x) :
    10 ^ 8 ≤ (nineDigits x).1 ∧ (nineDigits x).1 < 10 ^ 9 ∧
      |x - (nineDigits x).1 * 10 ^ ((nineDigits x).2 - 8)| ≤ 10 ^ ((nineDigits x).2 - 8) / 2 := by
  obtain ⟨low, high⟩ := scaled_bounds positive
  have unit : (0 : ℚ) < 10 ^ (Int.log 10 x - 8) := zpow_pos (by norm_num) _
  have within := roundEven_within (x / 10 ^ (Int.log 10 x - 8))
  have apart := abs_sub_roundEven_le (x / 10 ^ (Int.log 10 x - 8))
  have floor_low : (10 : ℤ) ^ 8 ≤ ⌊x / 10 ^ (Int.log 10 x - 8)⌋ :=
    Int.le_floor.mpr (by exact_mod_cast low)
  have floor_high : ⌊x / 10 ^ (Int.log 10 x - 8)⌋ < (10 : ℤ) ^ 9 :=
    Int.floor_lt.mpr (by exact_mod_cast high)
  obtain ⟨digits, same⟩ := Int.eq_ofNat_of_zero_le (show 0 ≤ roundEven (x / 10 ^ (Int.log 10 x - 8)) by
    omega)
  rw [same] at within apart
  push_cast at apart
  have near : |x - digits * 10 ^ (Int.log 10 x - 8)| ≤ 10 ^ (Int.log 10 x - 8) / 2 := by
    rw [show x - digits * 10 ^ (Int.log 10 x - 8) =
      (x / 10 ^ (Int.log 10 x - 8) - digits) * 10 ^ (Int.log 10 x - 8) by
        rw [sub_mul, div_mul_cancel₀ _ unit.ne'], abs_mul, abs_of_pos unit]
    linarith [mul_le_mul_of_nonneg_right apart unit.le]
  have written : nineDigits x =
      if digits = 10 ^ 9 then (10 ^ 8, Int.log 10 x + 1) else (digits, Int.log 10 x) := by
    unfold nineDigits
    dsimp only
    rw [same]
    rfl
  rw [written]
  split_ifs with carried
  · -- ten digits: the number is the same with one digit less
    subst carried
    refine ⟨le_rfl, by norm_num, ?_⟩
    have next : (10 : ℚ) ^ (Int.log 10 x + 1 - 8) = 10 * 10 ^ (Int.log 10 x - 8) := by
      rw [show Int.log 10 x + 1 - 8 = 1 + (Int.log 10 x - 8) by ring, zpow_add₀ (by norm_num), zpow_one]
    push_cast at near ⊢
    rw [next, ← mul_assoc, show (100000000 : ℚ) * 10 = 1000000000 by norm_num]
    linarith
  · exact ⟨by omega, by omega, near⟩

/-- A number's two parts; without a second part there is no point. -/
def pointed (whole fraction : List Char) : List Char :=
  if fraction = [] then whole else whole ++ '.' :: fraction

/-- `g`: without the zeros at the end, and with an exponent where that is shorter. -/
def general (digits : ℕ) (exponent : ℤ) : List Char :=
  let shown := Nat.toDigits 10 digits
  let fraction := fun whole => (shown.drop whole).rdropWhile (· = '0')
  if exponent < -4 ∨ 9 ≤ exponent then
    let power := Nat.toDigits 10 exponent.natAbs
    pointed (shown.take 1) (fraction 1) ++ 'e' :: (if exponent < 0 then '-' else '+') ::
      (List.replicate (2 - power.length) '0' ++ power)
  else if exponent < 0 then
    pointed ['0'] (List.replicate (-exponent - 1).toNat '0' ++ fraction 0)
  else pointed (shown.take (exponent + 1).toNat) (fraction (exponent + 1).toNat)

/-- `f"{x:.9g}"`. -/
def format9g (x : UInt64) : List Char :=
  let sign := if x >>> 63 = 1 then ['-'] else []
  if exponentBits x = 0x7ff then
    if fractionBits x = 0 then sign ++ ['i', 'n', 'f'] else ['n', 'a', 'n']
  else if magnitude x = 0 then sign ++ ['0']
  else sign ++ general (nineDigits (magnitude x)).1 (nineDigits (magnitude x)).2

/-- `vec_literal`. -/
def vecLiteral (v : Embedding) : String :=
  "[" ++ ",".intercalate (v.map fun x => String.ofList (format9g x)) ++ "]"

example : vecLiteral [0x3fb999999999999a, 0x3ee4f8b588e368f1] = "[0.1,1e-05]" := by decide +kernel

end Freshet.Pipeline
