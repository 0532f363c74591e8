import Mathlib.Data.List.Basic
import Mathlib.Data.List.Induction

/-!
# Greedy selections

The items of a list are taken in order, and an item is left out if it clashes with one that
has been kept.  Removing duplicates is the case of a clash that is an equality of keys, and
removing near duplicates the case of one that need not be transitive, where the order matters.
-/

namespace Lib

variable {α β : Type} (r : α → α → Bool)

/-- The items that are kept, given those that have been. -/
def greedy : List α → List α → List α
  | _, [] => []
  | kept, x :: l =>
      if kept.any (r x) then greedy kept l else x :: greedy (kept ++ [x]) l

variable {r}

theorem greedy_map (f : β → α) (kept l : List β) :
    greedy r (kept.map f) (l.map f) = (greedy (fun x y ↦ r (f x) (f y)) kept l).map f := by
  induction l generalizing kept with
  | nil => rfl
  | cons x l ih =>
      have hany : (kept.map f).any (r (f x)) = kept.any fun y ↦ r (f x) (f y) :=
        List.any_map
      have happend : kept.map f ++ [f x] = (kept ++ [x]).map f := by simp
      rw [List.map_cons, greedy, greedy, hany, happend, ih kept, ih (kept ++ [x])]
      split
      · rfl
      · rfl

/-- The first item is always kept. -/
theorem greedy_ne_nil {l : List α} (h : l ≠ []) : greedy r [] l ≠ [] := by
  cases l with
  | nil => exact absurd rfl h
  | cons x l => exact List.cons_ne_nil _ _

theorem greedy_sublist (kept l : List α) : (greedy r kept l).Sublist l := by
  induction l generalizing kept with
  | nil => exact List.Sublist.slnil
  | cons x l ih =>
      rw [greedy]
      split
      · exact (ih kept).cons x
      · exact (ih (kept ++ [x])).cons_cons x

/-! ## What is kept -/

/-- The selection of an append goes on from what its first part kept. -/
theorem greedy_append (kept l₁ l₂ : List α) :
    greedy r kept (l₁ ++ l₂) = greedy r kept l₁ ++ greedy r (kept ++ greedy r kept l₁) l₂ := by
  induction l₁ generalizing kept with
  | nil => simp [greedy]
  | cons x l₁ ih =>
      rw [List.cons_append, greedy, greedy]
      by_cases hx : kept.any (r x)
      · rw [if_pos hx, if_pos hx]
        exact ih kept
      · rw [if_neg hx, if_neg hx, ih (kept ++ [x]), List.cons_append, List.append_assoc]
        rfl

/-- One more item is kept unless it clashes. -/
theorem greedy_concat (l : List α) (x : α) :
    greedy r [] (l ++ [x]) =
      if (greedy r [] l).any (r x) then greedy r [] l else greedy r [] l ++ [x] := by
  rw [greedy_append, List.nil_append, greedy, greedy, greedy]
  split
  · exact List.append_nil _
  · rfl

/-- What is kept of a first part is the first part of what is kept. -/
theorem greedy_append_isPrefix (l₁ l₂ : List α) :
    greedy r [] l₁ <+: greedy r [] (l₁ ++ l₂) := by
  rw [greedy_append]
  exact List.prefix_append _ _

/-- No kept item clashes with an earlier one. -/
theorem greedy_pairwise (l : List α) : (greedy r [] l).Pairwise fun y x ↦ ¬ r x y := by
  induction l using List.reverseRecOn with
  | nil => exact List.Pairwise.nil
  | append_singleton l x ih =>
      rw [greedy_concat]
      by_cases hx : (greedy r [] l).any (r x)
      · rw [if_pos hx]
        exact ih
      · rw [if_neg hx]
        refine List.pairwise_append.mpr ⟨ih, List.pairwise_singleton _ _, ?_⟩
        intro y hy z hz hclash
        obtain rfl := List.mem_singleton.mp hz
        exact hx (List.any_eq_true.mpr ⟨y, hy, hclash⟩)

/-- An item that is left out clashes with one that is kept. -/
theorem mem_greedy_or_clash {l : List α} {x : α} (hx : x ∈ l) :
    x ∈ greedy r [] l ∨ ∃ y ∈ greedy r [] l, r x y := by
  obtain ⟨l₁, l₂, rfl⟩ := List.append_of_mem hx
  have hfront : greedy r [] (l₁ ++ [x]) <+: greedy r [] (l₁ ++ x :: l₂) := by
    rw [List.append_cons l₁ x l₂]
    exact greedy_append_isPrefix _ _
  rw [greedy_concat] at hfront
  by_cases hany : (greedy r [] l₁).any (r x)
  · rw [if_pos hany] at hfront
    obtain ⟨y, hy, hclash⟩ := List.any_eq_true.mp hany
    exact .inr ⟨y, hfront.subset hy, hclash⟩
  · rw [if_neg hany] at hfront
    exact .inl (hfront.subset (by simp))

/-- Where nothing clashes, everything is kept. -/
theorem greedy_eq_self {l : List α} (h : l.Pairwise fun y x ↦ ¬ r x y) : greedy r [] l = l := by
  induction l using List.reverseRecOn with
  | nil => rfl
  | append_singleton l x ih =>
      obtain ⟨hl, -, hx⟩ := List.pairwise_append.mp h
      rw [greedy_concat, ih hl, if_neg]
      rw [List.any_eq_true]
      rintro ⟨y, hy, hclash⟩
      exact hx y hy x (List.mem_singleton_self x) hclash

end Lib
