import Mathlib.Data.Option.Basic
import Mathlib.Logic.Function.Basic

/-!
# Counters that expire

A table of counters, each of which may have a time at which it is dropped: what the commands
`INCR` and `EXPIRE` of Redis do to one key, and what the passing of time does to all of them.
-/

namespace Lib

universe u

variable {κ : Type u} [DecidableEq κ]

structure Counter where
  count : Nat
  /-- When the counter is dropped, if it is ever. -/
  expireAt : Option Nat
deriving DecidableEq, Repr

/-- The counters that exist. -/
abbrev Counters (κ : Type u) := κ → Option Counter

/-- The counter is dropped within `ttl` from now. -/
def Counter.Timed (now ttl : Nat) (c : Counter) : Prop :=
  ∃ e, c.expireAt = some e ∧ now < e ∧ e ≤ now + ttl

namespace Counters

variable (t : Counters κ) (k : κ)

/-- The value of a counter; one that does not exist counts as zero. -/
def value : Nat := (t k).elim 0 Counter.count

/-- `INCR`: a counter that does not exist is created, without an expiry. -/
def incr : Counters κ :=
  Function.update t k (some ⟨t.value k + 1, (t k).bind Counter.expireAt⟩)

/-- `EXPIRE`: a time to live that is not positive drops the counter at once. -/
def expire (now : Nat) (ttl : Int) : Counters κ :=
  Function.update t k ((t k).bind fun c ↦
    if ttl ≤ 0 then none else some { c with expireAt := some (now + ttl.toNat) })

/-- What is left of the counters at a time. -/
def sweep (now : Nat) : Counters κ := fun k ↦ (t k).filter fun c ↦ c.expireAt.all (now < ·)

variable {t k} {k' : κ} {c : Counter} {now : Nat} {ttl : Int}

@[simp] theorem incr_self : t.incr k k = some ⟨t.value k + 1, (t k).bind Counter.expireAt⟩ :=
  Function.update_self ..

theorem incr_of_ne (h : k' ≠ k) : t.incr k k' = t k' := Function.update_of_ne h _ _

@[simp] theorem value_incr : (t.incr k).value k = t.value k + 1 := by
  rw [value, incr_self, Option.elim_some]

omit [DecidableEq κ] in
theorem value_eq_zero (h : t k = none) : t.value k = 0 := by
  rw [value, h]
  rfl

theorem expire_of_ne (h : k' ≠ k) : t.expire k now ttl k' = t k' := Function.update_of_ne h _ _

/-- A counter that `EXPIRE` has touched and left has got its time. -/
theorem timed_of_expire (h : t.expire k now ttl k = some c) : c.Timed now ttl.toNat := by
  rw [expire, Function.update_self] at h
  obtain ⟨c₀, -, h⟩ := Option.bind_eq_some_iff.mp h
  split at h
  · cases h
  · next hpos =>
      cases h
      exact ⟨now + ttl.toNat, rfl, by omega, Nat.le_refl _⟩

theorem expire_count (h : t.expire k now ttl k = some c) : ∃ c₀, t k = some c₀ ∧
    c₀.count = c.count := by
  rw [expire, Function.update_self] at h
  obtain ⟨c₀, hc₀, h⟩ := Option.bind_eq_some_iff.mp h
  split at h
  · cases h
  · cases h
    exact ⟨c₀, hc₀, rfl⟩

omit [DecidableEq κ] in
theorem sweep_eq_some :
    t.sweep now k = some c ↔ t k = some c ∧ ∀ e, c.expireAt = some e → now < e := by
  rw [sweep, Option.filter_eq_some_iff]
  apply and_congr_right
  intro _
  cases hc : c.expireAt with
  | none => simp
  | some e => simp

omit [DecidableEq κ] in
/-- Time passes for a counter that is to be dropped. -/
theorem timed_of_sweep {ttl : Nat} (h : t.sweep (now + 1) k = some c) (hc : c.Timed now ttl) :
    c.Timed (now + 1) ttl := by
  obtain ⟨e, he, -, hle⟩ := hc
  exact ⟨e, he, (sweep_eq_some.mp h).2 e he, by omega⟩

end Counters

end Lib
