/-!
# Computations that may raise

A run of a fallible computation that returned, taken apart: a sequence returned if its parts
did, and a loop that returned has kept whatever each of its rounds keeps.  Two runs side by
side raise the same or end in related values, if their rounds do.
-/

universe u v w x

namespace Lib

variable {ε : Type u} {α β : Type v}

/-- A sequence returned through the value of its first part. -/
theorem bind_eq_ok {x : Except ε α} {g : α → Except ε β} {b : β} :
    (x >>= g) = .ok b ↔ ∃ a, x = .ok a ∧ g a = .ok b := by
  cases x with
  | error e => simp [bind, Except.bind]
  | ok a => simp [bind, Except.bind]

theorem map_eq_ok {x : Except ε α} {g : α → β} {b : β} :
    x.map g = .ok b ↔ ∃ a, x = .ok a ∧ g a = b := by
  cases x with
  | error e => simp [Except.map]
  | ok a => simp [Except.map]

/-- What each round that returns keeps, the whole loop keeps. -/
theorem foldlM_keeps {γ : Type w} {f : α → γ → Except ε α} {P : α → Prop}
    (hstep : ∀ a c a', f a c = .ok a' → P a → P a') {l : List γ} {a a' : α}
    (h : l.foldlM f a = .ok a') (ha : P a) : P a' := by
  induction l generalizing a with
  | nil =>
      cases h
      exact ha
  | cons c l ih =>
      rw [List.foldlM_cons] at h
      obtain ⟨mid, hmid, hrest⟩ := bind_eq_ok.mp h
      exact ih hrest (hstep a c mid hmid ha)

/-- Two computations raise the same, or return values in relation. -/
def Related {α : Type v} {β : Type w} (R : α → β → Prop) (x : Except ε α) (y : Except ε β) :
    Prop :=
  (∃ e, x = .error e ∧ y = .error e) ∨ ∃ a b, x = .ok a ∧ y = .ok b ∧ R a b

/-- Loops are in relation if their rounds are. -/
theorem foldlM_related {α : Type v} {β : Type w} {γ : Type x} {f : α → γ → Except ε α}
    {g : β → γ → Except ε β} {R : α → β → Prop}
    (hstep : ∀ a b c, R a b → Related R (f a c) (g b c)) (l : List γ) {a : α} {b : β}
    (h : R a b) : Related R (l.foldlM f a) (l.foldlM g b) := by
  induction l generalizing a b with
  | nil => exact .inr ⟨a, b, rfl, rfl, h⟩
  | cons c l ih =>
      rw [List.foldlM_cons, List.foldlM_cons]
      rcases hstep a b c h with ⟨e, hf, hg⟩ | ⟨a', b', hf, hg, h'⟩
      · rw [hf, hg]
        exact .inl ⟨e, rfl, rfl⟩
      · rw [hf, hg]
        exact ih h'

end Lib
