/-
**Rounding a rational to double precision.**

`nearest q` is the binary64 value closest to `q`, ties to the even significand, with the exponent
range unbounded above; `inRange q` says that the conversion meets neither overflow nor underflow,
where a result underflows if it is inexact and its magnitude, rounded to 53 bits with no least
exponent, is below the least normal one. `nearest_intCast`: integers up to `2 ^ 53` in magnitude are
represented exactly. `nearest_mono`: rounding keeps the order, since at two magnitudes with
different last places the larger power of two is a grid point of both.
-/

import Mathlib.Data.Int.Log
import Mathlib.Data.Rat.Floor
import Mathlib.Algebra.Order.Field.Power
import Mathlib.Tactic.Linarith
import Mathlib.Tactic.NormNum

namespace Binary64

/-- The nearest integer, ties to even. -/
def roundEven (q : ℚ) : ℤ :=
  if q - ⌊q⌋ < 1 / 2 then ⌊q⌋
  else if 1 / 2 < q - ⌊q⌋ then ⌊q⌋ + 1
  else if ⌊q⌋ % 2 = 0 then ⌊q⌋ else ⌊q⌋ + 1

/-- The exponent of the last place of a 53-bit significand at the magnitude of `q`; subnormals share
the exponent of the least normal. -/
def lastPlace (q : ℚ) : ℤ := max (Int.log 2 |q|) (-1022) - 52

/-- The multiple of `2 ^ place` that is closest to `q`. -/
def roundTo (place : ℤ) (q : ℚ) : ℚ := roundEven (q / 2 ^ place) * 2 ^ place

/-- The closest binary64 value. -/
def nearest (q : ℚ) : ℚ := roundTo (lastPlace q) q

/-- Neither overflow nor underflow; tininess is detected after rounding. -/
def inRange (q : ℚ) : Bool :=
  |nearest q| < 2 ^ 1024 &&
    (nearest q = q || 2 ^ (-1022 : ℤ) ≤ |roundTo (Int.log 2 |q| - 52) q|)

theorem roundEven_intCast (n : ℤ) : roundEven n = n := by
  unfold roundEven
  rw [Int.floor_intCast, sub_self, if_pos (by norm_num)]

/-- A multiple of its last place is exact. -/
theorem nearest_of_multiple {q : ℚ} {m : ℤ} (multiple : q = m * 2 ^ lastPlace q) :
    nearest q = q := by
  have positive : (2 : ℚ) ^ lastPlace q ≠ 0 := zpow_ne_zero _ (by norm_num)
  have quotient : q / 2 ^ lastPlace q = m := by
    rw [div_eq_iff positive]
    exact multiple
  unfold nearest roundTo
  rw [quotient, roundEven_intCast]
  exact multiple.symm

theorem lastPlace_intCast {n : ℤ} (small : |n| ≤ 2 ^ 53) : lastPlace n ≤ 1 := by
  by_cases zero : n = 0
  · subst zero
    simp [lastPlace]
  · have positive : (0 : ℚ) < |(n : ℚ)| := by
      rw [abs_pos]
      exact_mod_cast zero
    have bound : |(n : ℚ)| < 2 ^ (54 : ℤ) := by
      have cast : |(n : ℚ)| ≤ 2 ^ 53 := by exact_mod_cast small
      exact lt_of_le_of_lt cast (by norm_num)
    have log : Int.log 2 |(n : ℚ)| < 54 :=
      (Int.lt_zpow_iff_log_lt (b := 2) (by norm_num) positive).mp (by exact_mod_cast bound)
    unfold lastPlace
    omega

/-- **Integers up to `2 ^ 53` are exact.** -/
theorem nearest_intCast {n : ℤ} (small : |n| ≤ 2 ^ 53) : nearest n = n := by
  have place := lastPlace_intCast small
  rcases lt_or_eq_of_le place with below | one
  · -- the last place is worth at most one, so it divides every integer
    obtain ⟨k, hk⟩ : ∃ k : ℕ, lastPlace n = -k := ⟨(-lastPlace n).toNat, by omega⟩
    refine nearest_of_multiple (m := n * 2 ^ k) ?_
    rw [hk, zpow_neg, zpow_natCast]
    push_cast
    rw [mul_assoc, mul_inv_cancel₀ (by positivity), mul_one]
  · -- the last place is worth two only at `± 2 ^ 53`
    have log : (53 : ℤ) ≤ Int.log 2 |(n : ℚ)| := by
      unfold lastPlace at one
      omega
    have positive : (0 : ℚ) < |(n : ℚ)| := by
      rcases (abs_nonneg (n : ℚ)).lt_or_eq with positive | zero
      · exact positive
      · rw [← zero] at log
        simp at log
    have large := (Int.zpow_le_iff_le_log (b := 2) (by norm_num) positive).mpr log
    have exact : |n| = 2 ^ 53 := by
      refine le_antisymm small ?_
      have cast : ((2 ^ 53 : ℤ) : ℚ) ≤ ((|n| : ℤ) : ℚ) := by
        rw [Int.cast_abs]
        calc ((2 ^ 53 : ℤ) : ℚ) = ((2 : ℕ) : ℚ) ^ (53 : ℤ) := by norm_num
          _ ≤ |(n : ℚ)| := large
      exact Int.cast_le.mp cast
    obtain ⟨half, hHalf⟩ : ∃ half : ℤ, n = half * 2 := by
      rcases abs_eq (by norm_num : (0 : ℤ) ≤ 2 ^ 53) |>.mp exact with same | same
      · exact ⟨2 ^ 52, by rw [same]; norm_num⟩
      · exact ⟨-2 ^ 52, by rw [same]; norm_num⟩
    refine nearest_of_multiple (m := half) ?_
    rw [one, zpow_one]
    exact_mod_cast hHalf

theorem inRange_intCast {n : ℤ} (small : |n| ≤ 2 ^ 53) : inRange n = true := by
  have below : |(n : ℚ)| < 2 ^ 1024 := by
    have cast : |(n : ℚ)| ≤ 2 ^ 53 := by exact_mod_cast small
    exact lt_of_le_of_lt cast (pow_lt_pow_right₀ (by norm_num) (by norm_num))
  unfold inRange
  rw [nearest_intCast small, Bool.and_eq_true, decide_eq_true_eq]
  exact ⟨below, by simp⟩

/-! ### Rounding keeps the order -/

theorem roundEven_bounds (q : ℚ) : ⌊q⌋ ≤ roundEven q ∧ roundEven q ≤ ⌊q⌋ + 1 := by
  unfold roundEven
  split_ifs <;> omega

theorem roundEven_mono {p q : ℚ} (le : p ≤ q) : roundEven p ≤ roundEven q := by
  rcases (Int.floor_le_floor le).lt_or_eq with below | same
  · have upper := (roundEven_bounds p).2
    have lower := (roundEven_bounds q).1
    omega
  · unfold roundEven
    rw [same]
    split_ifs <;> first | omega | (exfalso; linarith)

/-- Rounding stays on its side of a grid point. -/
theorem roundTo_le {place k : ℤ} {q : ℚ} (le : q ≤ k * 2 ^ place) :
    roundTo place q ≤ k * 2 ^ place := by
  have positive : (0 : ℚ) < 2 ^ place := zpow_pos (by norm_num) _
  have rounded := roundEven_mono ((div_le_iff₀ positive).mpr le)
  rw [roundEven_intCast] at rounded
  exact mul_le_mul_of_nonneg_right (by exact_mod_cast rounded) positive.le

theorem le_roundTo {place k : ℤ} {q : ℚ} (le : k * 2 ^ place ≤ q) :
    k * 2 ^ place ≤ roundTo place q := by
  have positive : (0 : ℚ) < 2 ^ place := zpow_pos (by norm_num) _
  have rounded := roundEven_mono ((le_div_iff₀ positive).mpr le)
  rw [roundEven_intCast] at rounded
  exact mul_le_mul_of_nonneg_right (by exact_mod_cast rounded) positive.le

theorem roundTo_mono (place : ℤ) {p q : ℚ} (le : p ≤ q) : roundTo place p ≤ roundTo place q := by
  have positive : (0 : ℚ) < 2 ^ place := zpow_pos (by norm_num) _
  have rounded := roundEven_mono (div_le_div_of_nonneg_right le positive.le)
  exact mul_le_mul_of_nonneg_right (by exact_mod_cast rounded) positive.le

/-- A power of two is a grid point of every smaller place. -/
theorem exists_grid {place exponent : ℤ} (le : place ≤ exponent) :
    ∃ k : ℤ, (2 : ℚ) ^ exponent = k * 2 ^ place := by
  obtain ⟨n, rfl⟩ := Int.le.dest le
  refine ⟨2 ^ n, ?_⟩
  rw [zpow_add₀ (by norm_num), zpow_natCast, mul_comm]
  push_cast
  rfl

/-- The last places of two magnitudes, the smaller of which has the smaller one. -/
theorem lastPlace_lt {p q : ℚ} (positive : 0 < |p|) (le : |p| ≤ |q|)
    (apart : lastPlace p ≠ lastPlace q) :
    lastPlace p < lastPlace q ∧ lastPlace q ≤ Int.log 2 |q| ∧
      |p| < 2 ^ Int.log 2 |q| ∧ 2 ^ Int.log 2 |q| ≤ |q| := by
  have logs : Int.log 2 |p| ≤ Int.log 2 |q| := Int.log_mono_right positive le
  unfold lastPlace at apart ⊢
  have below : Int.log 2 |p| < Int.log 2 |q| := by omega
  refine ⟨by omega, by omega, ?_, ?_⟩
  · exact_mod_cast (Int.lt_zpow_iff_log_lt (b := 2) (by norm_num) positive).mpr below
  · exact_mod_cast Int.zpow_log_le_self (b := 2) (by norm_num) (positive.trans_le le)

/-- **Rounding keeps the order.** -/
theorem nearest_mono {p q : ℚ} (le : p ≤ q) : nearest p ≤ nearest q := by
  unfold nearest
  by_cases same : lastPlace p = lastPlace q
  · rw [same]
    exact roundTo_mono _ le
  rcases le_or_gt p 0 with negative | positive
  · rcases le_or_gt 0 q with positive | negative'
    · -- zero is between them
      have below := @roundTo_le (lastPlace p) 0 p (by simpa using negative)
      have above := @le_roundTo (lastPlace q) 0 q (by simpa using positive)
      rw [Int.cast_zero, zero_mul] at below above
      exact below.trans above
    · have magnitudes : |q| ≤ |p| := by
        rw [abs_of_neg negative', abs_of_nonpos negative]
        exact neg_le_neg le
      obtain ⟨less, grid, between, reaches⟩ :=
        lastPlace_lt (abs_pos.mpr negative'.ne) magnitudes (Ne.symm same)
      rw [abs_of_neg negative'] at between
      rw [abs_of_nonpos negative] at grid between reaches
      obtain ⟨k, atP⟩ := exists_grid grid
      obtain ⟨k', atQ⟩ := exists_grid (less.le.trans grid)
      calc roundTo (lastPlace p) p ≤ (-k : ℤ) * 2 ^ lastPlace p :=
        roundTo_le (by push_cast; linarith)
        _ = (-k' : ℤ) * 2 ^ lastPlace q := by push_cast; linarith
        _ ≤ roundTo (lastPlace q) q := le_roundTo (by push_cast; linarith)
  · have magnitudes : |p| ≤ |q| := by
      rw [abs_of_pos positive, abs_of_pos (positive.trans_le le)]
      exact le
    obtain ⟨less, grid, between, reaches⟩ := lastPlace_lt (abs_pos.mpr positive.ne') magnitudes same
    rw [abs_of_pos positive] at between
    rw [abs_of_pos (positive.trans_le le)] at grid between reaches
    obtain ⟨k, atQ⟩ := exists_grid grid
    obtain ⟨k', atP⟩ := exists_grid (less.le.trans grid)
    calc roundTo (lastPlace p) p ≤ k' * 2 ^ lastPlace p := roundTo_le (by linarith)
      _ = k * 2 ^ lastPlace q := by linarith
      _ ≤ roundTo (lastPlace q) q := le_roundTo (by linarith)

end Binary64
