import Mathlib.Order.Lattice

/-!
# The items of the greatest rank

One pass over a list collects what the elements of the greatest rank hold: an element of a
greater rank than any before drops what has been collected, and one of a smaller rank is
skipped.
-/

universe u v w

namespace Lib

variable {α : Type u} {β : Type v} {ρ : Type w} [LinearOrder ρ]

/-- One element: the greatest rank so far, and what its elements hold. -/
def collect (rank : α → ρ) (items : α → List β) (acc : ρ × List β) (x : α) : ρ × List β :=
  if rank x < acc.1 then acc
  else if acc.1 < rank x then (rank x, items x)
  else (acc.1, acc.2 ++ items x)

variable {rank : α → ρ} {items : α → List β} {l : List α} {acc : ρ × List β} {y : β}

/-- What is collected was there and no rank is greater, or it is held by an element whose rank is
as great as any. -/
theorem mem_foldl_collect :
    y ∈ (l.foldl (collect rank items) acc).2 ↔
      (y ∈ acc.2 ∧ ∀ z ∈ l, rank z ≤ acc.1) ∨
        ∃ x ∈ l, y ∈ items x ∧ acc.1 ≤ rank x ∧ ∀ z ∈ l, rank z ≤ rank x := by
  induction l generalizing acc with
  | nil => simp
  | cons a l ih =>
      rw [List.foldl_cons, ih]
      simp only [List.forall_mem_cons]
      simp only [List.mem_cons, exists_eq_or_imp]
      rw [collect]
      split
      · next hlt =>
          -- the element is skipped
          have hno : ¬(y ∈ items a ∧ acc.1 ≤ rank a ∧ rank a ≤ rank a ∧
              ∀ z ∈ l, rank z ≤ rank a) := fun h ↦ absurd h.2.1 (not_le_of_gt hlt)
          constructor
          · rintro (⟨hy, hall⟩ | ⟨x, hx, hy, hle, hall⟩)
            · exact .inl ⟨hy, le_of_lt hlt, hall⟩
            · exact .inr (.inr ⟨x, hx, hy, hle, le_trans (le_of_lt hlt) hle, hall⟩)
          · rintro (⟨hy, -, hall⟩ | h | ⟨x, hx, hy, hle, -, hall⟩)
            · exact .inl ⟨hy, hall⟩
            · exact absurd h hno
            · exact .inr ⟨x, hx, hy, hle, hall⟩
      split
      · next hge hgt =>
          -- what was collected is dropped
          constructor
          · rintro (⟨hy, hall⟩ | ⟨x, hx, hy, hle, hall⟩)
            · exact .inr (.inl ⟨hy, le_of_lt hgt, le_rfl, hall⟩)
            · exact .inr (.inr ⟨x, hx, hy, le_trans (le_of_lt hgt) hle, hle, hall⟩)
          · rintro (⟨-, hle, -⟩ | ⟨hy, -, -, hall⟩ | ⟨x, hx, hy, -, hle, hall⟩)
            · exact absurd hle (not_le_of_gt hgt)
            · exact .inl ⟨hy, hall⟩
            · exact .inr ⟨x, hx, hy, hle, hall⟩
      · next hge hle =>
          have heq : rank a = acc.1 := le_antisymm (not_lt.mp hle) (not_lt.mp hge)
          simp only [List.mem_append, heq, le_refl, true_and]
          constructor
          · rintro (⟨hy | hy, hall⟩ | ⟨x, hx, hy, hle, hall⟩)
            · exact .inl ⟨hy, hall⟩
            · exact .inr (.inl ⟨hy, hall⟩)
            · exact .inr (.inr ⟨x, hx, hy, hle, hle, hall⟩)
          · rintro (⟨hy, hall⟩ | ⟨hy, hall⟩ | ⟨x, hx, hy, hle, -, hall⟩)
            · exact .inl ⟨.inl hy, hall⟩
            · exact .inl ⟨.inr hy, hall⟩
            · exact .inr ⟨x, hx, hy, hle, hall⟩

/-- A pass that begins below every rank collects what the elements of the greatest rank hold. -/
theorem mem_foldl_collect_of_lt {bottom : ρ} (h : ∀ x ∈ l, bottom < rank x) :
    y ∈ (l.foldl (collect rank items) (bottom, [])).2 ↔
      ∃ x ∈ l, y ∈ items x ∧ ∀ z ∈ l, rank z ≤ rank x := by
  rw [mem_foldl_collect]
  constructor
  · rintro (⟨⟨⟩, -⟩ | ⟨x, hx, hy, -, hall⟩)
    exact ⟨x, hx, hy, hall⟩
  · rintro ⟨x, hx, hy, hall⟩
    exact .inr ⟨x, hx, hy, le_of_lt (h x hx), hall⟩

end Lib
