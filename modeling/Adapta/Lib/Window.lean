import Mathlib.Data.List.Infix

/-!
# Windows

The window of a list between two positions, `l[a:b]`.  A list that is worked through from the
left leaves windows that end at the position reached; the next item makes the window longer,
and a suffix of a window is a window.
-/

universe u

namespace Lib

variable {α : Type u} {l kept : List α} {a k : Nat}

/-- `l[a:b]`. -/
def window (l : List α) (w : Nat × Nat) : List α := (l.drop w.1).take (w.2 - w.1)

theorem length_window (hk : k ≤ l.length) : (window l (a, k)).length = k - a := by
  rw [window, List.length_take, List.length_drop]
  omega

theorem window_self (l : List α) (k : Nat) : window l (k, k) = [] := by
  rw [window, Nat.sub_self, List.take_zero]

/-- The item at the right end. -/
theorem window_succ {x : α} (ha : a ≤ k) (hx : l[k]? = some x) :
    window l (a, k + 1) = window l (a, k) ++ [x] := by
  have hget : (l.drop a)[k - a]? = some x := by
    rw [List.getElem?_drop, Nat.add_sub_cancel' ha, hx]
  rw [window, window, Nat.succ_sub ha, List.take_add_one, hget]
  rfl

theorem window_append {b : Nat} (hab : a ≤ b) (hbk : b ≤ k) :
    window l (a, k) = window l (a, b) ++ window l (b, k) := by
  have hdrop : l.drop b = (l.drop a).drop (b - a) := by
    rw [List.drop_drop, Nat.add_sub_cancel' hab]
  have hlen : k - a = b - a + (k - b) := by omega
  rw [window, window, window, hdrop, hlen, List.take_add]

/-- A suffix of a window is the window of its length. -/
theorem eq_window_of_suffix (ha : a ≤ k) (hk : k ≤ l.length) (h : kept <:+ window l (a, k)) :
    kept = window l (k - kept.length, k) := by
  have hlen := h.length_le
  rw [length_window hk] at hlen
  obtain ⟨init, hinit⟩ := h
  have hsplit := window_append (l := l) (a := a) (b := k - kept.length) (k := k) (by omega)
    (by omega)
  have hright : (window l (k - kept.length, k)).length = kept.length := by
    rw [length_window hk]
    omega
  rw [hsplit] at hinit
  exact (List.append_inj' hinit hright.symm).2

theorem mem_window {i : Nat} {x : α} (ha : a ≤ i) (hi : i < k) (hx : l[i]? = some x) :
    x ∈ window l (a, k) := by
  have hlt : i - a < k - a := by omega
  apply List.mem_of_getElem? (i := i - a)
  rw [window, List.getElem?_take_of_lt hlt, List.getElem?_drop, Nat.add_sub_cancel' ha, hx]

end Lib
