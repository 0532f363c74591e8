import Mathlib.Data.Multiset.UnionInter

/-!
# Tallies

A tally counts the occurrences in one list, and the items of another are matched against it,
each of them using up one occurrence.  What is matched is the intersection of the two lists as
multisets.
-/

namespace Lib

variable {α : Type} [DecidableEq α]

/-- One more occurrence of every item of a list. -/
def tally : List α → (α → Nat) → α → Nat
  | [], d => d
  | x :: l, d => tally l (Function.update d x (d x + 1))

/-- The number of items that are matched. -/
def matched : List α → (α → Nat) → Nat
  | [], _ => 0
  | x :: l, d =>
      if 0 < d x then matched l (Function.update d x (d x - 1)) + 1 else matched l d

theorem tally_apply (l : List α) (d : α → Nat) (y : α) : tally l d y = d y + l.count y := by
  induction l generalizing d with
  | nil => rfl
  | cons x l ih =>
      rw [tally, ih]
      by_cases h : y = x
      · subst h
        rw [Function.update_self, List.count_cons_self]
        omega
      · rw [Function.update_of_ne h, List.count_cons_of_ne (Ne.symm h)]

/-- An occurrence that is used up is erased. -/
theorem update_count (m : Multiset α) (x : α) :
    Function.update (fun y ↦ m.count y) x (m.count x - 1) = fun y ↦ (m.erase x).count y := by
  funext y
  by_cases h : y = x
  · subst h
    rw [Function.update_self, Multiset.count_erase_self]
  · rw [Function.update_of_ne h, Multiset.count_erase_of_ne h]

theorem matched_count (l : List α) (m : Multiset α) :
    matched l (fun y ↦ m.count y) = ((l : Multiset α) ∩ m).card := by
  induction l generalizing m with
  | nil => rw [matched, Multiset.coe_nil, Multiset.zero_inter, Multiset.card_zero]
  | cons x l ih =>
      rw [matched, ← Multiset.cons_coe]
      by_cases h : x ∈ m
      · rw [if_pos (Multiset.count_pos.mpr h), update_count, ih, Multiset.cons_inter_of_pos _ h,
          Multiset.card_cons]
      · have hzero : ¬0 < m.count x := by
          rw [Multiset.count_pos]
          exact h
        rw [if_neg hzero, ih, Multiset.cons_inter_of_neg _ h]

/-- What is matched against the tally of a list is the intersection with the list. -/
theorem matched_tally (l m : List α) :
    matched l (tally m fun _ ↦ 0) = ((l : Multiset α) ∩ (m : Multiset α)).card := by
  have htally : tally m (fun _ ↦ 0) = fun y ↦ (m : Multiset α).count y := by
    funext y
    rw [tally_apply, Nat.zero_add, Multiset.coe_count]
  rw [htally, matched_count]

theorem matched_le_left (l m : List α) : matched l (tally m fun _ ↦ 0) ≤ l.length := by
  rw [matched_tally, ← Multiset.coe_card l]
  exact Multiset.card_le_card Multiset.inter_le_left

theorem matched_le_right (l m : List α) : matched l (tally m fun _ ↦ 0) ≤ m.length := by
  rw [matched_tally, ← Multiset.coe_card m]
  exact Multiset.card_le_card Multiset.inter_le_right

end Lib
