import Mathlib.Logic.Function.Basic
import Mathlib.Logic.Relation

/-!
# Executable transition systems

A `System` is an initial state together with a partial step function: `next s a`
is the state after the action `a`, or `none` when `a` is not enabled at `s`.
Concurrent programs are modelled by letting one action be one atomic step of one
party, so a run is a list of actions and an interleaving is an order of that list.

Everything is phrased over runs *within a guard* `g : σ → α → Prop`, a condition
on the state before a step and the action taken there.  The guard `fun _ _ ↦ True`
gives plain reachability, and a proper guard singles out the runs on which a
conditional property is claimed, so that one induction rule (`Reach.invariant`)
serves both.

The step function is executable, and so is `exec`; `Reach.of_exec` turns a
computed run into a reachability proof, which is how concrete runs are exhibited.
-/

universe u v

namespace Lib

/-- A transition system with an executable, partial step function. -/
structure System (σ : Type u) (α : Type v) where
  /-- The state every run starts in. -/
  init : σ
  /-- The state after an action, if the action is enabled. -/
  next : σ → α → Option σ

namespace System

variable {σ : Type u} {α : Type v} {S : System σ α} {g : σ → α → Prop}

/-- `S.Reach g s`: some run of `S` all of whose steps meet the guard `g` ends in `s`. -/
inductive Reach (S : System σ α) (g : σ → α → Prop) : σ → Prop
  /-- The empty run. -/
  | init : Reach S g S.init
  /-- One more step, which meets the guard. -/
  | step {s s' : σ} {a : α} : Reach S g s → g s a → S.next s a = some s' → Reach S g s'

/-- Reachability by unrestricted runs. -/
abbrev Reachable (S : System σ α) : σ → Prop := S.Reach fun _ _ ↦ True

/-- `S.Steps g s s'`: some run whose steps all meet the guard leads from `s` to `s'`. -/
def Steps (S : System σ α) (g : σ → α → Prop) : σ → σ → Prop :=
  Relation.ReflTransGen fun s s' ↦ ∃ a, g s a ∧ S.next s a = some s'

/-- Run a list of actions from a state, stopping with `none` at the first action
that is not enabled or does not meet the guard. -/
def exec (S : System σ α) (g : σ → α → Prop) [∀ s a, Decidable (g s a)] :
    σ → List α → Option σ
  | s, [] => some s
  | s, a :: l => if g s a then (S.next s a).bind fun s' ↦ exec S g s' l else none

/-- The same system with a history variable: `obs` adds to it what a step is to be
remembered for, and no step depends on it. -/
def ghost {η : Type*} (S : System σ α) (h₀ : η) (obs : σ → α → η → η) : System (σ × η) α where
  init := (S.init, h₀)
  next x a := (S.next x.1 a).map fun s ↦ (s, obs x.1 a x.2)

/-- Every step of the run by `l` from a state has the property `P`, which may speak of the state
after it.  The run is over before an action that is not enabled. -/
def Always (S : System σ α) (P : σ → α → σ → Prop) : σ → List α → Prop
  | _, [] => True
  | s, a :: l => ∀ s', S.next s a = some s' → P s a s' ∧ S.Always P s' l

/-- A property of steps and the guard of a run say the same, if they do at each step before which
the invariant `I` holds, and steps within the guard keep the invariant. -/
theorem always_iff {P G : σ → α → σ → Prop} {I : σ → Prop}
    (hiff : ∀ s a s', I s → S.next s a = some s' → (P s a s' ↔ G s a s'))
    (hstep : ∀ s a s', I s → G s a s' → S.next s a = some s' → I s')
    {s : σ} (hs : I s) (l : List α) : S.Always P s l ↔ S.Always G s l := by
  induction l generalizing s with
  | nil => exact Iff.rfl
  | cons a l ih =>
      refine forall_congr' fun s' ↦ forall_congr' fun hn ↦ ?_
      rw [hiff s a s' hs hn]
      exact and_congr_right fun hg ↦ ih (hstep s a s' hs hg hn)

/-- The property of the step that follows a computed run. -/
theorem Always.of_exec [∀ s a, Decidable (g s a)] {P : σ → α → σ → Prop} {l : List α} {a : α}
    {s s₁ s₂ : σ} (h : S.Always P s (l ++ [a])) (he : S.exec g s l = some s₁)
    (hn : S.next s₁ a = some s₂) : P s₁ a s₂ := by
  induction l generalizing s with
  | nil =>
      cases he
      exact (h s₂ hn).1
  | cons b l ih =>
      simp only [exec, Option.ite_none_right_eq_some] at he
      obtain ⟨t, ht, he⟩ := Option.bind_eq_some_iff.mp he.2
      exact ih (h t ht).2 he

namespace Reach

/-- A run can be continued. -/
theorem steps {s s' : σ} (h : S.Reach g s) (hs : S.Steps g s s') : S.Reach g s' := by
  induction hs with
  | refl => exact h
  | tail _ hn ih =>
      obtain ⟨a, ha, hn⟩ := hn
      exact .step ih ha hn

/-- **The invariant rule.**  A predicate that holds initially and is preserved by
every step that meets the guard holds in every state reached within the guard. -/
theorem invariant {P : σ → Prop} (h₀ : P S.init)
    (hstep : ∀ s a s', P s → g s a → S.next s a = some s' → P s')
    {s : σ} (h : S.Reach g s) : P s := by
  induction h with
  | init => exact h₀
  | step _ hg hn ih => exact hstep _ _ _ ih hg hn

/-- A computed run reaches its final state. -/
theorem exec_reach [∀ s a, Decidable (g s a)] {l : List α} :
    ∀ {s s' : σ}, S.Reach g s → S.exec g s l = some s' → S.Reach g s' := by
  induction l with
  | nil =>
      intro s s' h he
      simp only [exec, Option.some.injEq] at he
      exact he ▸ h
  | cons a l ih =>
      intro s s' h he
      simp only [exec] at he
      split at he
      · rename_i hg
        obtain ⟨t, ht, he⟩ := Option.bind_eq_some_iff.mp he
        exact ih (.step h hg ht) he
      · cases he

/-- A computed run from the initial state reaches a state, and what is computed of
that state holds of it. -/
theorem of_exec [∀ s a, Decidable (g s a)] {l : List α} {β : Type*} {f : σ → β} {b : β}
    (he : (S.exec g S.init l).map f = some b) : ∃ s, S.Reach g s ∧ f s = b := by
  obtain ⟨s, hs, hb⟩ := Option.map_eq_some_iff.mp he
  exact ⟨s, exec_reach .init hs, hb⟩

end Reach

end System

end Lib
