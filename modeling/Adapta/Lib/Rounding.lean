import Mathlib.Algebra.Order.Floor.Ring
import Mathlib.Data.Int.ConditionallyCompleteOrder
import Mathlib.Data.Rat.Floor

/-!
# Rounding

Rounding of rationals to a number of decimals, halves to even.
-/

namespace Lib

/-- The nearest integer; a half goes to the even one. -/
def roundHalfEven (x : Rat) : Int :=
  if x - ⌊x⌋ < 1 / 2 then ⌊x⌋
  else if 1 / 2 < x - ⌊x⌋ then ⌊x⌋ + 1
  else if ⌊x⌋ % 2 = 0 then ⌊x⌋
  else ⌊x⌋ + 1

/-- `round(x, n)`. -/
def roundTo (x : Rat) (n : Nat) : Rat := roundHalfEven (x * 10 ^ n) / 10 ^ n

theorem roundHalfEven_le (x : Rat) : (roundHalfEven x : Rat) ≤ x + 1 / 2 := by
  have hfloor := Int.floor_le x
  rw [roundHalfEven]
  split_ifs
  all_goals
    push_cast
    linarith

theorem le_roundHalfEven (x : Rat) : x - 1 / 2 ≤ (roundHalfEven x : Rat) := by
  have hfloor := Int.lt_floor_add_one x
  rw [roundHalfEven]
  split_ifs
  all_goals
    push_cast
    linarith

/-- What is nearer than a half is the nearest. -/
theorem roundHalfEven_eq {x : Rat} {m : Int} (hlo : (m : Rat) - 1 / 2 < x)
    (hhi : x < (m : Rat) + 1 / 2) : roundHalfEven x = m := by
  have hle := roundHalfEven_le x
  have hge := le_roundHalfEven x
  have hlt : (roundHalfEven x : Rat) < (m : Rat) + 1 := by linarith
  have hgt : (m : Rat) - 1 < (roundHalfEven x : Rat) := by linarith
  norm_cast at hlt hgt
  omega

@[simp] theorem roundHalfEven_intCast (m : Int) : roundHalfEven m = m :=
  roundHalfEven_eq (by linarith) (by linarith)

@[simp] theorem roundHalfEven_zero : roundHalfEven 0 = 0 := roundHalfEven_intCast 0

theorem roundHalfEven_mono : Monotone roundHalfEven := by
  intro x y hxy
  have hfloor : ⌊x⌋ ≤ ⌊y⌋ := Int.floor_le_floor hxy
  rcases hfloor.lt_or_eq with hlt | heq
  · -- the roundings are on either side of an integer
    have hx : roundHalfEven x ≤ ⌊x⌋ + 1 := by
      rw [roundHalfEven]
      split_ifs
      all_goals omega
    have hy : ⌊y⌋ ≤ roundHalfEven y := by
      rw [roundHalfEven]
      split_ifs
      all_goals omega
    omega
  · rw [roundHalfEven, roundHalfEven, heq]
    have hfract : x - ⌊y⌋ ≤ y - ⌊y⌋ := sub_le_sub_right hxy _
    split_ifs
    all_goals first | omega | (exfalso; linarith)

@[simp] theorem roundHalfEven_neg (x : Rat) : roundHalfEven (-x) = -roundHalfEven x := by
  have hle := Int.floor_le x
  have hlt := Int.lt_floor_add_one x
  rcases hle.eq_or_lt with heq | hpos
  · rw [← heq, ← Int.cast_neg, roundHalfEven_intCast, roundHalfEven_intCast]
  · have hfloor : ⌊-x⌋ = -⌊x⌋ - 1 := by
      rw [Int.floor_eq_iff]
      push_cast
      constructor
      · linarith
      · linarith
    have hfract : -x - ((-⌊x⌋ - 1 : Int) : Rat) = 1 - (x - ⌊x⌋) := by
      push_cast
      ring
    rw [roundHalfEven, roundHalfEven, hfloor, hfract]
    split_ifs
    all_goals first | omega | (exfalso; linarith)

/-- Rounding keeps apart what is more than a unit of the last decimal apart. -/
theorem roundTo_lt_roundTo {x y : Rat} {n : Nat} (h : x + 1 / 10 ^ n < y) :
    roundTo x n < roundTo y n := by
  have hpos : (0 : Rat) < 10 ^ n := by positivity
  have hscaled : x * 10 ^ n + 1 < y * 10 ^ n := by
    have := mul_lt_mul_of_pos_right h hpos
    rwa [add_mul, one_div_mul_cancel (ne_of_gt hpos)] at this
  have hle := roundHalfEven_le (x * 10 ^ n)
  have hge := le_roundHalfEven (y * 10 ^ n)
  rw [roundTo, roundTo]
  apply div_lt_div_of_pos_right _ hpos
  linarith

end Lib
