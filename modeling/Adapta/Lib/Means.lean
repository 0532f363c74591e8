import Mathlib.Algebra.BigOperators.Group.List.Basic
import Mathlib.Algebra.Order.BigOperators.Group.List
import Mathlib.Data.List.Forall2
import Mathlib.Data.List.ReduceOption
import Mathlib.Algebra.Order.Field.Basic

/-!
# Means

The mean of a list of numbers, and that of a list in which some entries are missing: the rate
of those that are there times their mean is the mean with zero for a missing one.
-/

namespace Lib

universe u

section

variable {K : Type u} [Field K]

/-- The mean; that of no numbers is zero. -/
def mean (l : List K) : K := l.sum / l.length

@[simp] theorem mean_nil : mean ([] : List K) = 0 := by rw [mean, List.sum_nil, zero_div]

/-- The mean of no numbers is zero, whether that is said or not. -/
theorem ite_mean [DecidableEq K] (l : List K) :
    (if l = [] then 0 else l.sum / l.length) = mean l := by
  by_cases h : l = []
  · rw [if_pos h, h, mean_nil]
  · rw [if_neg h, mean]

/-- Missing entries add nothing to a sum. -/
theorem sum_getD_zero (l : List (Option K)) :
    (l.map fun x ↦ x.getD 0).sum = l.reduceOption.sum := by
  induction l with
  | nil => rfl
  | cons x l ih =>
      cases x with
      | none =>
          rw [List.reduceOption_cons_of_none, List.map_cons, List.sum_cons, ih, Option.getD_none,
            zero_add]
      | some x =>
          rw [List.reduceOption_cons_of_some, List.map_cons, List.sum_cons, ih, Option.getD_some,
            List.sum_cons]

/-- The rate of the entries times their mean. -/
theorem rate_mul_mean [CharZero K] (l : List (Option K)) :
    (l.reduceOption.length / l.length : K) * mean l.reduceOption =
      mean (l.map fun x ↦ x.getD 0) := by
  rw [mean, mean, sum_getD_zero, List.length_map]
  by_cases h : l.reduceOption = []
  · rw [h]
    simp
  · have hne : (l.reduceOption.length : K) ≠ 0 := by
      rw [Nat.cast_ne_zero, ne_eq, List.length_eq_zero_iff]
      exact h
    rw [div_mul_div_comm, mul_comm, mul_div_mul_right _ _ hne]

end

section

variable {K : Type u} [Field K] [LinearOrder K] [IsStrictOrderedRing K]

/-- A part of a whole is a fraction. -/
theorem part_mem_unit {m n : Nat} (h : m ≤ n) : 0 ≤ (m / n : K) ∧ (m / n : K) ≤ 1 := by
  have hn : (0 : K) ≤ n := Nat.cast_nonneg n
  refine ⟨div_nonneg (Nat.cast_nonneg m) hn, div_le_one_of_le₀ ?_ hn⟩
  exact Nat.cast_le.mpr h

/-- The mean of fractions is a fraction. -/
theorem mean_mem_unit {l : List K} (h : ∀ x ∈ l, 0 ≤ x ∧ x ≤ 1) : 0 ≤ mean l ∧ mean l ≤ 1 := by
  have hlo : 0 ≤ l.sum := List.sum_nonneg fun x hx ↦ (h x hx).1
  have hhi : l.sum ≤ l.length := by
    have hsum := List.sum_le_card_nsmul l 1 fun x hx ↦ (h x hx).2
    rwa [nsmul_one] at hsum
  constructor
  · exact div_nonneg hlo (Nat.cast_nonneg _)
  · exact div_le_one_of_le₀ hhi (Nat.cast_nonneg _)

/-- Means are monotone in their terms. -/
theorem mean_mono {l m : List K} (h : List.Forall₂ (· ≤ ·) l m) : mean l ≤ mean m := by
  rw [mean, mean, h.length_eq]
  exact div_le_div_of_nonneg_right h.sum_le_sum (Nat.cast_nonneg _)

/-- The harmonic mean of two fractions is a fraction. -/
theorem harmonic_mem_unit {x y : K} (hx : 0 ≤ x ∧ x ≤ 1) (hy : 0 ≤ y ∧ y ≤ 1) :
    0 ≤ 2 * x * y / (x + y) ∧ 2 * x * y / (x + y) ≤ 1 := by
  have hsum : 0 ≤ x + y := add_nonneg hx.1 hy.1
  have hprod : 0 ≤ x * y := mul_nonneg hx.1 hy.1
  have hle : 2 * x * y ≤ x + y := by
    calc 2 * x * y = x * y + x * y := by rw [mul_assoc, two_mul]
      _ ≤ x + y := add_le_add (mul_le_of_le_one_right hx.1 hy.2) (mul_le_of_le_one_left hy.1 hx.2)
  constructor
  · apply div_nonneg _ hsum
    rw [mul_assoc]
    exact mul_nonneg two_pos.le hprod
  · exact div_le_one_of_le₀ hle hsum

end

end Lib
