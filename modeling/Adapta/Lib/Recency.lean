import Mathlib.Data.List.Nodup

/-!
# Lists in the order of last use

A history of uses is a list with the newest use first, so the index of an element's first
occurrence says how long ago it was last used.  A list of elements is in the order of last
use if these indices increase along it.  Using an element moves it to the front; removing
elements keeps the order, and the last element is the least recently used one.
-/

universe u

namespace Lib

variable {α : Type u} [DecidableEq α]

/-- `keys` are elements that have been used, the most recently used one first. -/
structure Recency (uses keys : List α) : Prop where
  sorted : keys.Pairwise fun a b ↦ uses.idxOf a < uses.idxOf b
  used : ∀ a ∈ keys, a ∈ uses

namespace Recency

variable {uses keys keys' : List α} {a b : α}

theorem nil : Recency uses [] := ⟨.nil, fun _ h ↦ nomatch h⟩

theorem sublist (h : Recency uses keys) (hs : keys'.Sublist keys) : Recency uses keys' :=
  ⟨h.sorted.sublist hs, fun a ha ↦ h.used a (hs.subset ha)⟩

theorem nodup (h : Recency uses keys) : keys.Nodup :=
  h.sorted.imp fun hlt heq ↦ by
    rw [heq] at hlt
    exact Nat.lt_irrefl _ hlt

/-- An element is used. -/
theorem touch (h : Recency uses keys) (a : α) : Recency (a :: uses) (a :: keys.erase a) := by
  have hne : ∀ b ∈ keys.erase a, (a :: uses).idxOf b = uses.idxOf b + 1 := by
    intro b hb
    apply List.idxOf_cons_ne uses
    rintro rfl
    exact h.nodup.not_mem_erase hb
  constructor
  · refine List.pairwise_cons.mpr ⟨?_, ?_⟩
    · intro b hb
      rw [hne b hb, List.idxOf_cons_self]
      exact Nat.succ_pos _
    · refine (h.sorted.sublist List.erase_sublist).imp_of_mem fun hb hc hlt ↦ ?_
      rw [hne _ hb, hne _ hc]
      exact Nat.succ_lt_succ hlt
  · intro b hb
    rcases List.mem_cons.mp hb with rfl | hb
    · exact List.mem_cons_self
    · exact List.mem_cons_of_mem _ (h.used b (List.mem_of_mem_erase hb))

/-- The last element is the least recently used one. -/
theorem lt_of_getLast? (h : Recency uses keys) (hl : keys.getLast? = some a) (hb : b ∈ keys)
    (hne : b ≠ a) : uses.idxOf b < uses.idxOf a := by
  obtain ⟨init, rfl⟩ := List.getLast?_eq_some_iff.mp hl
  have hb : b ∈ init := by simpa [hne] using hb
  exact (List.pairwise_append.mp h.sorted).2.2 b hb a List.mem_cons_self

end Recency

end Lib
