/-!
# Generators and their consumers

A generator is a list of what it does when it is driven to its end: values it yields, and
actions in between.  A consumer may stop: after `n` values the generator is closed where it
stands, and nothing that follows the `n`-th value is done.  A consumer that asks for one value
more than there are drives it to the end.
-/

universe u v w

namespace Lib

/-- One thing a generator does. -/
inductive Emit (φ : Type u) (ω : Type v) where
  | yield (x : φ)
  | act (a : ω)
deriving DecidableEq, Repr

/-- What a generator does, and the exception it ends with if it raises one. -/
structure Generator (φ : Type u) (ω : Type v) (ε : Type w) where
  events : List (Emit φ ω)
  raised : Option ε

namespace Emit

variable {φ : Type u} {ω : Type v}

def yield? : Emit φ ω → Option φ
  | .yield x => some x
  | .act _ => none

def act? : Emit φ ω → Option ω
  | .yield _ => none
  | .act a => some a

end Emit

variable {φ : Type u} {ω : Type v}

/-- What is done for a consumer that asks for `n` values. -/
def drive : Nat → List (Emit φ ω) → List (Emit φ ω)
  | 0, _ => []
  | _ + 1, [] => []
  | n + 1, .yield x :: l => .yield x :: drive n l
  | n + 1, .act a :: l => .act a :: drive (n + 1) l

/-- The actions done for a consumer that asks for `n` values. -/
def actions (n : Nat) (l : List (Emit φ ω)) : List ω := (drive n l).filterMap Emit.act?

@[simp] theorem actions_nil (n : Nat) : actions n ([] : List (Emit φ ω)) = [] := by
  cases n <;> rfl

/-- Values alone act on nothing. -/
theorem actions_yields (xs : List φ) (n : Nat) :
    actions n (xs.map Emit.yield : List (Emit φ ω)) = [] := by
  induction xs generalizing n with
  | nil => exact actions_nil n
  | cons x xs ih =>
      cases n with
      | zero => rfl
      | succ n => exact ih n

/-- An action after the last value is done for a consumer that asks for more than there are. -/
theorem actions_yields_act (xs : List φ) (a : ω) (n : Nat) :
    actions n (xs.map Emit.yield ++ [Emit.act a]) = if xs.length < n then [a] else [] := by
  induction xs generalizing n with
  | nil =>
      cases n with
      | zero => rfl
      | succ n => simp [actions, drive, Emit.act?]
  | cons x xs ih =>
      cases n with
      | zero => simp [actions, drive]
      | succ n =>
          have hstep : actions (n + 1) ((x :: xs).map Emit.yield ++ [Emit.act a]) =
              actions n (xs.map Emit.yield ++ [Emit.act a]) := rfl
          rw [hstep, ih]
          simp

end Lib
