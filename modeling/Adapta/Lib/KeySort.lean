import Mathlib.Data.List.Sort

/-!
# Sorting by a key

`l.insertionSort fun a b ↦ key a ≤ key b` for a key in a linear order.  When the key is
injective on the list, the result is determined by the elements alone, and the element with
the smaller key stands first.
-/

universe u v w

namespace Lib

variable {α : Type u} {β : Type v} {κ : Type w} [LinearOrder κ] {key : α → κ} {l l' : List α}

theorem pairwise_sort (key : α → κ) (l : List α) :
    (l.insertionSort fun a b ↦ key a ≤ key b).Pairwise fun a b ↦ key a ≤ key b := by
  have : Std.Total fun a b : α ↦ key a ≤ key b := ⟨fun a b ↦ le_total (key a) (key b)⟩
  have : IsTrans α fun a b : α ↦ key a ≤ key b := ⟨fun _ _ _ ↦ le_trans⟩
  exact List.pairwise_insertionSort _ _

/-- Two lists in the order of an injective key that have the same elements are equal. -/
theorem eq_of_perm_of_pairwise_key (hinj : ∀ a ∈ l, ∀ b ∈ l, key a = key b → a = b)
    (hl : l.Pairwise fun a b ↦ key a ≤ key b) (hl' : l'.Pairwise fun a b ↦ key a ≤ key b)
    (h : l.Perm l') : l = l' := by
  apply h.eq_of_pairwise _ hl hl'
  intro a b ha hb hab hba
  exact hinj a ha b (h.mem_iff.mpr hb) (le_antisymm hab hba)

/-- The order of the elements before the sort does not matter. -/
theorem sort_eq_of_perm (hinj : ∀ a ∈ l, ∀ b ∈ l, key a = key b → a = b) (h : l.Perm l') :
    (l.insertionSort fun a b ↦ key a ≤ key b) = l'.insertionSort fun a b ↦ key a ≤ key b := by
  apply eq_of_perm_of_pairwise_key _ (pairwise_sort key l) (pairwise_sort key l')
  · exact ((List.perm_insertionSort _ l).trans h).trans (List.perm_insertionSort _ l').symm
  · intro a ha b hb
    exact hinj a ((List.mem_insertionSort _).mp ha) b ((List.mem_insertionSort _).mp hb)

variable [DecidableEq α] {a b : α}

/-- The smaller key stands first. -/
theorem idxOf_sort_lt (ha : a ∈ l) (hlt : key a < key b) :
    (l.insertionSort fun a b ↦ key a ≤ key b).idxOf a <
      (l.insertionSort fun a b ↦ key a ≤ key b).idxOf b := by
  have hsort := pairwise_sort key l
  have ha' := (List.mem_insertionSort fun a b ↦ key a ≤ key b).mpr ha
  generalize (l.insertionSort fun a b ↦ key a ≤ key b) = s at hsort ha'
  induction s with
  | nil => cases ha'
  | cons c s ih =>
      rw [List.pairwise_cons] at hsort
      have hcb : c ≠ b := by
        rintro rfl
        rcases List.mem_cons.mp ha' with rfl | hs
        · exact lt_irrefl _ hlt
        · exact absurd (hsort.1 a hs) (not_le_of_gt hlt)
      rw [List.idxOf_cons_ne s hcb]
      by_cases hca : c = a
      · rw [List.idxOf_cons_eq s hca]
        exact Nat.succ_pos _
      · rw [List.idxOf_cons_ne s hca]
        have hs := (List.mem_cons.mp ha').resolve_left (Ne.symm hca)
        exact Nat.succ_lt_succ (ih hsort.2 hs)

end Lib
