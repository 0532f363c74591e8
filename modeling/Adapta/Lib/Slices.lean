import Mathlib.Data.List.Range

/-!
# Slices

A list is worked through in slices of one length: `l[i : i + n]` for `i` in
`range(0, len(l), n)`.  The slices in their order make up the list.
-/

namespace Lib

variable {α : Type} {l : List α} {n : Nat}

/-- The slices of `l` of length `n`; the last one may be shorter. -/
def slices (n : Nat) (l : List α) : List (List α) :=
  (List.range ((l.length + n - 1) / n)).map fun i ↦ (l.drop (i * n)).take n

/-- The first `k` slices are the first `k * n` items. -/
theorem flatten_range_slices (k : Nat) :
    ((List.range k).map fun i ↦ (l.drop (i * n)).take n).flatten = l.take (k * n) := by
  induction k with
  | zero => simp
  | succ k ih =>
      rw [List.range_succ, List.map_append, List.flatten_append, ih, Nat.succ_mul, List.take_add]
      simp

theorem flatten_slices (hn : 0 < n) : (slices n l).flatten = l := by
  rw [slices, flatten_range_slices]
  apply List.take_of_length_le
  have hlt : l.length + n - 1 < (l.length + n - 1) / n * n + n := Nat.lt_div_mul_add hn
  omega

/-- The same of the slices as of what they are cut from. -/
theorem flatten_take_slices (hn : 0 < n) (k : Nat) (l : List α) :
    ((slices n l).take k).flatten = l.take (k * n) := by
  rw [slices, ← List.map_take, List.take_range, flatten_range_slices]
  rcases Nat.le_total k ((l.length + n - 1) / n) with hk | hk
  · rw [Nat.min_eq_left hk]
  · -- the slices cover the list
    have hlt : l.length + n - 1 < (l.length + n - 1) / n * n + n := Nat.lt_div_mul_add hn
    have hmul : (l.length + n - 1) / n * n ≤ k * n := Nat.mul_le_mul_right n hk
    rw [Nat.min_eq_right hk, List.take_of_length_le (by omega), List.take_of_length_le (by omega)]

/-- The slices before the one that passes a multiple of `n` are as long as that multiple. -/
theorem length_flatten_take_slices (hn : 0 < n) {m k : Nat}
    (hle : ((slices n l).take k).flatten.length ≤ m * n)
    (hlt : m * n < ((slices n l).take (k + 1)).flatten.length) :
    ((slices n l).take k).flatten.length = m * n := by
  rw [flatten_take_slices hn, List.length_take] at hle hlt ⊢
  have hk : m < k + 1 := by
    by_contra hge
    have hmul : (k + 1) * n ≤ m * n := Nat.mul_le_mul_right n (Nat.le_of_not_lt hge)
    omega
  have hmul : m * n ≤ k * n := Nat.mul_le_mul_right n (Nat.lt_succ_iff.mp hk)
  omega

end Lib
