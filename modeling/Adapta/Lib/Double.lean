import Mathlib.Data.Int.Log
import Mathlib.Tactic.Positivity
import Adapta.Lib.Rounding

/-!
# Doubles

The rounding of a rational to the nearest double, halves to even.  An operation of the
processor on doubles is the exact operation followed by this rounding, and so is the division
of two integers.

The range of the exponent is left out: there are no subnormal numbers here, and no overflow.
-/

namespace Lib

/-- The distance of the doubles at a number. -/
def ulp (x : Rat) : Rat := 2 ^ (Int.log 2 |x| - 52)

/-- The nearest double. -/
def fl (x : Rat) : Rat := roundHalfEven (x / ulp x) * ulp x

/-- The relative error of a rounding. -/
def unitRoundoff : Rat := 1 / 2 ^ 53

theorem ulp_pos (x : Rat) : 0 < ulp x := zpow_pos (by decide) _

@[simp] theorem ulp_neg (x : Rat) : ulp (-x) = ulp x := by rw [ulp, ulp, abs_neg]

@[simp] theorem fl_zero : fl 0 = 0 := by
  rw [fl, zero_div, roundHalfEven_zero, Int.cast_zero, zero_mul]

@[simp] theorem fl_neg (x : Rat) : fl (-x) = -fl x := by
  rw [fl, ulp_neg, neg_div, roundHalfEven_neg, Int.cast_neg, neg_mul, fl]

/-- A number has 53 bits before its last place. -/
theorem two_pow_mul_ulp_le {x : Rat} (hx : 0 < x) : 2 ^ 52 * ulp x ≤ x := by
  have hlog := Int.zpow_log_le_self (b := 2) (by decide) hx
  rw [ulp, abs_of_pos hx]
  calc (2 : Rat) ^ 52 * 2 ^ (Int.log 2 x - 52)
      = 2 ^ Int.log 2 x := by
        rw [← zpow_natCast, ← zpow_add₀ two_ne_zero]
        congr 1
        push_cast
        ring
    _ ≤ x := hlog

theorem lt_two_pow_mul_ulp {x : Rat} (hx : 0 < x) : x < 2 ^ 53 * ulp x := by
  have hlog := Int.lt_zpow_succ_log_self (b := 2) (by decide) x
  rw [ulp, abs_of_pos hx]
  calc x < 2 ^ (Int.log 2 x + 1) := hlog
    _ = (2 : Rat) ^ 53 * 2 ^ (Int.log 2 x - 52) := by
        rw [← zpow_natCast, ← zpow_add₀ two_ne_zero]
        congr 1
        push_cast
        ring

/-! ## The error -/

theorem abs_fl_sub_le (x : Rat) : |fl x - x| ≤ unitRoundoff * |x| := by
  have hulp := ulp_pos x
  have hround : |(roundHalfEven (x / ulp x) : Rat) - x / ulp x| ≤ 1 / 2 := by
    rw [abs_le]
    have hle := roundHalfEven_le (x / ulp x)
    have hge := le_roundHalfEven (x / ulp x)
    constructor
    · linarith
    · linarith
  have hsub : fl x - x = (roundHalfEven (x / ulp x) - x / ulp x) * ulp x := by
    rw [fl, sub_mul, div_mul_cancel₀ _ hulp.ne']
  rw [hsub, abs_mul, abs_of_pos hulp]
  rcases eq_or_ne x 0 with rfl | hx
  · simp
  · have hbits : 2 ^ 52 * ulp x ≤ |x| := by
      rcases lt_or_gt_of_ne hx with hneg | hpos
      · have h := two_pow_mul_ulp_le (neg_pos.mpr hneg)
        rwa [ulp_neg, ← abs_of_neg hneg] at h
      · rw [abs_of_pos hpos]
        exact two_pow_mul_ulp_le hpos
    calc _ ≤ 1 / 2 * ulp x := mul_le_mul_of_nonneg_right hround hulp.le
      _ = unitRoundoff * (2 ^ 52 * ulp x) := by
          rw [unitRoundoff]
          ring
      _ ≤ unitRoundoff * |x| := mul_le_mul_of_nonneg_left hbits (by rw [unitRoundoff]; positivity)

/-- The same for a number between `-b` and `b`. -/
theorem fl_error {x b : Rat} (hlo : -b ≤ x) (hhi : x ≤ b) :
    x - unitRoundoff * b ≤ fl x ∧ fl x ≤ x + unitRoundoff * b := by
  have herr := abs_fl_sub_le x
  have hle : unitRoundoff * |x| ≤ unitRoundoff * b :=
    mul_le_mul_of_nonneg_left (abs_le.mpr ⟨hlo, hhi⟩) (by rw [unitRoundoff]; positivity)
  obtain ⟨hbelow, habove⟩ := abs_le.mp (herr.trans hle)
  constructor
  · linarith
  · linarith

/-! ## Order -/

theorem fl_mem {x : Rat} (hx : 0 < x) : 2 ^ 52 * ulp x ≤ fl x ∧ fl x ≤ 2 ^ 53 * ulp x := by
  have hulp := ulp_pos x
  have hlo : ((2 ^ 52 : Int) : Rat) ≤ x / ulp x := by
    rw [le_div_iff₀ hulp]
    exact_mod_cast two_pow_mul_ulp_le hx
  have hhi : x / ulp x ≤ ((2 ^ 53 : Int) : Rat) := by
    rw [div_le_iff₀ hulp]
    exact_mod_cast (lt_two_pow_mul_ulp hx).le
  have hlo' := roundHalfEven_mono hlo
  have hhi' := roundHalfEven_mono hhi
  rw [roundHalfEven_intCast] at hlo' hhi'
  constructor
  · exact mul_le_mul_of_nonneg_right (by exact_mod_cast hlo') hulp.le
  · exact mul_le_mul_of_nonneg_right (by exact_mod_cast hhi') hulp.le

theorem fl_nonneg {x : Rat} (hx : 0 ≤ x) : 0 ≤ fl x := by
  rcases hx.eq_or_lt with rfl | hpos
  · rw [fl_zero]
  · have hulp := ulp_pos x
    exact (by positivity : (0 : Rat) ≤ 2 ^ 52 * ulp x).trans (fl_mem hpos).1

theorem fl_mono_of_pos {x y : Rat} (hx : 0 < x) (hxy : x ≤ y) : fl x ≤ fl y := by
  have hy := hx.trans_le hxy
  have hlog : Int.log 2 x ≤ Int.log 2 y := Int.log_mono_right hx hxy
  rcases hlog.eq_or_lt with heq | hlt
  · have hulp : ulp x = ulp y := by rw [ulp, ulp, abs_of_pos hx, abs_of_pos hy, heq]
    rw [fl, fl, hulp]
    have hquot : x / ulp y ≤ y / ulp y := div_le_div_of_nonneg_right hxy (ulp_pos y).le
    exact mul_le_mul_of_nonneg_right (by exact_mod_cast roundHalfEven_mono hquot) (ulp_pos y).le
  · -- a power of two is between them
    have hulp : 2 * ulp x ≤ ulp y := by
      rw [ulp, ulp, abs_of_pos hx, abs_of_pos hy, ← zpow_one_add₀ two_ne_zero]
      exact zpow_le_zpow_right₀ one_le_two (by omega)
    calc fl x ≤ 2 ^ 53 * ulp x := (fl_mem hx).2
      _ = 2 ^ 52 * (2 * ulp x) := by ring
      _ ≤ 2 ^ 52 * ulp y := mul_le_mul_of_nonneg_left hulp (by positivity)
      _ ≤ fl y := (fl_mem hy).1

theorem fl_mono : Monotone fl := by
  intro x y hxy
  rcases lt_or_ge 0 x with hpos | hx
  · exact fl_mono_of_pos hpos hxy
  · rcases lt_or_ge y 0 with hneg | hy
    · have h := fl_mono_of_pos (neg_pos.mpr hneg) (neg_le_neg hxy)
      rw [fl_neg, fl_neg] at h
      exact neg_le_neg_iff.mp h
    · have h := fl_nonneg (neg_nonneg.mpr hx)
      rw [fl_neg] at h
      exact (neg_nonneg.mp h).trans (fl_nonneg hy)

/-! ## What is a double -/

theorem log_eq {x : Rat} {k : Int} (hlo : 2 ^ k ≤ x) (hhi : x < 2 ^ (k + 1)) :
    Int.log 2 x = k := by
  have hx : 0 < x := (zpow_pos two_pos k).trans_le hlo
  have hle : k ≤ Int.log 2 x := (Int.zpow_le_iff_le_log (by decide) hx).mp (by exact_mod_cast hlo)
  have hlt : Int.log 2 x < k + 1 :=
    (Int.lt_zpow_iff_log_lt (by decide) hx).mp (by exact_mod_cast hhi)
  omega

/-- The rounding of a double is the double. -/
theorem fl_fl_of_pos {x : Rat} (hx : 0 < x) : fl (fl x) = fl x := by
  have hulp := ulp_pos x
  obtain ⟨hlo, hhi⟩ := fl_mem hx
  have hpos : 0 < fl x := (by positivity : (0 : Rat) < 2 ^ 52 * ulp x).trans_le hlo
  have hpow : ∀ n : Nat, (2 : Rat) ^ n * ulp x = 2 ^ (Int.log 2 x - 52 + n) := by
    intro n
    rw [ulp, abs_of_pos hx, ← zpow_natCast, ← zpow_add₀ two_ne_zero, Int.add_comm]
  rcases hhi.eq_or_lt with heq | hlt
  · -- it is the next power of two
    have hlog : Int.log 2 (fl x) = Int.log 2 x + 1 := by
      rw [heq, hpow]
      have h : Int.log 2 ((2 : Rat) ^ (Int.log 2 x - 52 + (53 : Nat))) = _ :=
        Int.log_zpow (R := Rat) (b := 2) (by decide) _
      rw [h]
      push_cast
      ring
    have hnext : ulp (fl x) = 2 * ulp x := by
      rw [ulp, abs_of_pos hpos, hlog, ulp, abs_of_pos hx, ← zpow_one_add₀ two_ne_zero]
      congr 1
      ring
    have hquot : fl x / ulp (fl x) = ((2 ^ 52 : Int) : Rat) := by
      rw [hnext, heq]
      field_simp
      norm_num
    rw [fl, hquot, roundHalfEven_intCast, hnext, heq]
    push_cast
    ring
  · have hlog : Int.log 2 (fl x) = Int.log 2 x := by
      apply log_eq
      · have h := hpow 52
        rw [h] at hlo
        rwa [Nat.cast_ofNat, sub_add_cancel] at hlo
      · have h := hpow 53
        rw [h] at hlt
        rwa [show Int.log 2 x - 52 + (53 : Nat) = Int.log 2 x + 1 by push_cast; ring] at hlt
    have hsame : ulp (fl x) = ulp x := by
      rw [ulp, abs_of_pos hpos, hlog, ulp, abs_of_pos hx]
    have hquot : fl x / ulp (fl x) = (roundHalfEven (x / ulp x) : Rat) := by
      rw [hsame, fl, mul_div_cancel_right₀ _ hulp.ne']
    rw [fl, hquot, roundHalfEven_intCast, hsame]
    rfl

@[simp] theorem fl_fl (x : Rat) : fl (fl x) = fl x := by
  rcases lt_trichotomy x 0 with hneg | rfl | hpos
  · have h := fl_fl_of_pos (neg_pos.mpr hneg)
    rw [fl_neg, fl_neg] at h
    exact neg_injective h
  · rw [fl_zero, fl_zero]
  · exact fl_fl_of_pos hpos

end Lib
