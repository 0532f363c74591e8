import Adapta.Lib.Counters
import Adapta.Lib.System

/-!
# The rate limiter

`enforce` of `adapta/services/rate_limit.py` counts the attempts of an identifier in Redis: it
increments a counter, and the caller that sees it go to one gives it an expiry.  These are two
commands, each of which may fail, before or after Redis has carried it out, and calls may be
cancelled in between.  A counter that never gets its expiry counts for ever, so the limiter,
which is meant to fail open, then locks its identifier out for good.

`limiter` is the system of all calls, the counters and a clock in milliseconds.  `no_lockout`
says what holds as long as no expiry gets lost.

`enforce_auth` is two calls one after the other, for the address and for the email.
-/

namespace Adapta.Auth

open Lib

/-- The settings of the limiter. -/
structure RateConfig where
  authRateLimitMax : Int
  authRateLimitWindowSeconds : Int

abbrev CallId := Nat

/-! ## Calls -/

/-- How a call of `enforce` ends. -/
inductive Verdict where
  /-- It returns. -/
  | allowed
  /-- It raises `RateLimited`. -/
  | limited
  | cancelled
deriving DecidableEq, Repr

/-- Where a call is. -/
inductive CallPc where
  | absent
  /-- Before `INCR`. -/
  | incr
  /-- Before `EXPIRE`; the count was one. -/
  | expire
  | done (v : Verdict)
deriving DecidableEq, Repr

structure Call where
  key : String
  limit : Int
  windowSeconds : Int
  pc : CallPc
deriving DecidableEq, Repr

/-- The key of a counter. -/
def counterKey (scope : String) (identifier : Option String) : String :=
  "ratelimit:" ++ scope ++ ":" ++ identifier.getD ""

/-- `enforce` up to its first command.  Without an identifier, or with a limit that is not
positive, it returns at once. -/
def enforce (c : RateConfig) (scope : String) (identifier : Option String)
    (limit windowSeconds : Option Int) : Call :=
  let limit := limit.getD c.authRateLimitMax
  { key := counterKey scope identifier
    limit := limit
    windowSeconds := windowSeconds.getD c.authRateLimitWindowSeconds
    pc := if identifier.getD "" = "" ∨ limit ≤ 0 then .done .allowed else .incr }

/-- The test at the end of `enforce`. -/
def verdict (limit : Int) (count : Nat) : Verdict := if limit < count then .limited else .allowed

/-- What becomes of a command. -/
inductive Reply where
  | ok
  /-- Redis has carried it out, and the client raises. -/
  | lost
  /-- Redis has not carried it out, and the client raises. -/
  | failed
deriving DecidableEq, Repr

/-! ## The system -/

structure Limiter where
  /-- The time in milliseconds. -/
  now : Nat
  counters : Counters String
  calls : CallId → Call

namespace Limiter

def init : Limiter :=
  { now := 0, counters := fun _ ↦ none, calls := fun _ ↦ ⟨"", 0, 0, .absent⟩ }

variable (s : Limiter) (i : CallId)

def setPc (pc : CallPc) : Limiter :=
  { s with calls := Function.update s.calls i { s.calls i with pc := pc } }

/-- `INCR`, and what `enforce` does with the answer. -/
def incr : Reply → Limiter
  | .failed => s.setPc i (.done .allowed)
  | .lost => { s with counters := s.counters.incr (s.calls i).key }.setPc i (.done .allowed)
  | .ok =>
      let counters := s.counters.incr (s.calls i).key
      let count := counters.value (s.calls i).key
      { s with counters := counters }.setPc i
        (if count = 1 then .expire else .done (verdict (s.calls i).limit count))

/-- The time to live that a call asks for, in milliseconds. -/
def ttl : Int := 1000 * (s.calls i).windowSeconds

/-- `EXPIRE`, and what `enforce` does after it. -/
def expire : Reply → Limiter
  | .failed => s.setPc i (.done .allowed)
  | .lost =>
      { s with counters := s.counters.expire (s.calls i).key s.now (s.ttl i) }.setPc i
        (.done .allowed)
  | .ok =>
      { s with counters := s.counters.expire (s.calls i).key s.now (s.ttl i) }.setPc i
        (.done (verdict (s.calls i).limit 1))

end Limiter

inductive LimitAct where
  | call (i : CallId) (scope : String) (identifier : Option String)
      (limit windowSeconds : Option Int)
  | incr (i : CallId) (r : Reply)
  | expire (i : CallId) (r : Reply)
  /-- The task of a call is cancelled. -/
  | cancel (i : CallId)
  /-- A millisecond passes, and Redis drops what has expired. -/
  | tick
deriving DecidableEq, Repr

namespace Limiter

/-- One step of the system. -/
def step (c : RateConfig) (s : Limiter) : LimitAct → Option Limiter
  | .call i scope identifier limit windowSeconds =>
      if (s.calls i).pc = .absent then
        some { s with
          calls := Function.update s.calls i (enforce c scope identifier limit windowSeconds) }
      else none
  | .incr i r => if (s.calls i).pc = .incr then some (s.incr i r) else none
  | .expire i r => if (s.calls i).pc = .expire then some (s.expire i r) else none
  | .cancel i =>
      if (s.calls i).pc = .incr ∨ (s.calls i).pc = .expire then
        some (s.setPc i (.done .cancelled))
      else none
  | .tick => some { s with now := s.now + 1, counters := s.counters.sweep (s.now + 1) }

end Limiter

/-- An attempt, as the window it falls into remembers it. -/
structure Attempt where
  limit : Int
  /-- `enforce` raises `RateLimited`. -/
  refused : Bool
  /-- Its `INCR` has raised. -/
  failed : Bool
deriving DecidableEq, Repr

/-- The attempt at a key that a step makes. -/
def attemptOf (s s' : Limiter) (key : String) : LimitAct → Option Attempt
  | .incr i r =>
      if (s.calls i).key = key then
        some ⟨(s.calls i).limit, (s'.calls i).pc = .done .limited, r ≠ .ok⟩
      else none
  | _ => none

/-- The attempts in the window of each key, newest first.  A window lasts as long as the counter
exists. -/
def windows (c : RateConfig) (s : Limiter) (a : LimitAct) (w : String → List Attempt) :
    String → List Attempt :=
  match s.step c a with
  | none => w
  | some s' => fun key ↦
      if (s'.counters key).isNone then []
      else
        match attemptOf s s' key a with
        | some x => x :: w key
        | none => w key

/-- The rate limiter, with the attempts in each window. -/
def limiter (c : RateConfig) : System (Limiter × (String → List Attempt)) LimitAct :=
  System.ghost ⟨Limiter.init, Limiter.step c⟩ (fun _ ↦ []) (windows c)

/-! ## Statement -/

/-- The condition: every `EXPIRE` is carried out, no call is cancelled before it, and an `INCR`
whose answer is lost has not created the counter.  All calls use one window, of `W` seconds. -/
def Lasting (c : RateConfig) (W : Int) (x : Limiter × (String → List Attempt)) : LimitAct → Prop
  | .call _ _ _ _ windowSeconds => windowSeconds.getD c.authRateLimitWindowSeconds = W
  | .incr i r => r = .lost → (x.1.counters (x.1.calls i).key).isSome = true
  | .expire _ r => r ≠ .failed
  | .cancel i => (x.1.calls i).pc ≠ .expire
  | .tick => True

/-- A call that counts at a key has begun and not ended. -/
def InProgress (s : Limiter) (i : CallId) (key : String) : Prop :=
  (s.calls i).key = key ∧ ((s.calls i).pc = .incr ∨ (s.calls i).pc = .expire)

/-- The action begins an attempt at a key. -/
def Begins (key : String) : LimitAct → Prop
  | .call _ scope identifier _ _ => counterKey scope identifier = key
  | _ => False

/-- A call has returned, or is about to whatever becomes of its `EXPIRE`. -/
def Passes (c : RateConfig) (s : Limiter) (i : CallId) : Prop :=
  (s.calls i).pc = .done .allowed ∨ (s.calls i).pc = .expire ∧
    ∀ r s', s.step c (.expire i r) = some s' → (s'.calls i).pc = .done .allowed

/-! ## Expiries -/

variable {c : RateConfig} {W : Int} {s s' : Limiter} {i j : CallId} {key : String} {pc : CallPc}
  {w : String → List Attempt} {a : LimitAct}

namespace Limiter

@[simp] theorem setPc_pc : ((s.setPc i pc).calls i).pc = pc := by simp [setPc]

@[simp] theorem setPc_key : ((s.setPc i pc).calls j).key = (s.calls j).key := by
  by_cases h : j = i
  · subst h
    simp [setPc]
  · simp [setPc, h]

@[simp] theorem setPc_limit : ((s.setPc i pc).calls j).limit = (s.calls j).limit := by
  by_cases h : j = i
  · subst h
    simp [setPc]
  · simp [setPc, h]

@[simp] theorem setPc_windowSeconds :
    ((s.setPc i pc).calls j).windowSeconds = (s.calls j).windowSeconds := by
  by_cases h : j = i
  · subst h
    simp [setPc]
  · simp [setPc, h]

theorem setPc_of_ne (h : j ≠ i) : (s.setPc i pc).calls j = s.calls j := by simp [setPc, h]

@[simp] theorem setPc_counters : (s.setPc i pc).counters = s.counters := rfl

@[simp] theorem setPc_now : (s.setPc i pc).now = s.now := rfl

theorem step_incr {r : Reply} (h : (s.calls i).pc = .incr) :
    s.step c (.incr i r) = some (s.incr i r) := if_pos h

end Limiter

/-- The calls in progress are limited and use the window, and a counter without an expiry is
about to get one. -/
structure Timely (W : Int) (s : Limiter) : Prop where
  limit : ∀ i, (s.calls i).pc = .incr ∨ (s.calls i).pc = .expire → 0 < (s.calls i).limit
  window : ∀ i, (s.calls i).pc = .incr ∨ (s.calls i).pc = .expire → (s.calls i).windowSeconds = W
  timed : ∀ key n, s.counters key = some n → n.Timed s.now (1000 * W).toNat ∨
    n.expireAt = none ∧ ∃ i, (s.calls i).key = key ∧ (s.calls i).pc = .expire

namespace Timely

protected theorem init : Timely W .init where
  limit i hi := by simp [Limiter.init] at hi
  window i hi := by simp [Limiter.init] at hi
  timed key n hn := by cases hn

/-- A call goes on to `pc`, and a pending `EXPIRE` other than its own stays. -/
theorem setPc {t : Limiter} (h : Timely W s) (hcalls : t.calls = s.calls)
    (hi : (s.calls i).pc = .incr ∨ (s.calls i).pc = .expire)
    (htimed : ∀ key n, t.counters key = some n → n.Timed t.now (1000 * W).toNat ∨
      n.expireAt = none ∧ ((s.calls i).key = key ∧ pc = .expire ∨
        ∃ j, j ≠ i ∧ (s.calls j).key = key ∧ (s.calls j).pc = .expire)) :
    Timely W (t.setPc i pc) where
  limit j hj := by
    rw [Limiter.setPc_limit, hcalls]
    by_cases hne : j = i
    · rw [hne]
      exact h.limit i hi
    · rw [Limiter.setPc_of_ne hne, hcalls] at hj
      exact h.limit j hj
  window j hj := by
    rw [Limiter.setPc_windowSeconds, hcalls]
    by_cases hne : j = i
    · rw [hne]
      exact h.window i hi
    · rw [Limiter.setPc_of_ne hne, hcalls] at hj
      exact h.window j hj
  timed key n hn := by
    apply (htimed key n hn).imp_right
    rintro ⟨hnone, ⟨hkey, rfl⟩ | ⟨j, hne, hkey, hj⟩⟩
    · exact ⟨hnone, i, by rw [Limiter.setPc_key, hcalls, hkey], Limiter.setPc_pc⟩
    · refine ⟨hnone, j, ?_⟩
      rw [Limiter.setPc_of_ne hne, hcalls]
      exact ⟨hkey, hj⟩

/-- A counter without an expiry waits for a call that is not before its `INCR`. -/
theorem others (h : Timely W s) (hi : (s.calls i).pc = .incr) {key : String} {n : Counter}
    (hn : s.counters key = some n) : n.Timed s.now (1000 * W).toNat ∨
      n.expireAt = none ∧ ∃ j, j ≠ i ∧ (s.calls j).key = key ∧ (s.calls j).pc = .expire := by
  apply (h.timed key n hn).imp_right
  rintro ⟨hnone, j, hkey, hj⟩
  refine ⟨hnone, j, ?_, hkey, hj⟩
  rintro rfl
  rw [hi] at hj
  cases hj

theorem incr {r : Reply} (h : Timely W s) (hi : (s.calls i).pc = .incr)
    (hg : r = .lost → (s.counters (s.calls i).key).isSome = true) : Timely W (s.incr i r) := by
  -- an `INCR` on a counter that exists leaves its expiry as it is
  have hold : ∀ {key n}, (s.counters.incr (s.calls i).key) key = some n →
      ((s.calls i).key = key → (s.counters key).isSome = true) →
      n.Timed s.now (1000 * W).toNat ∨
        n.expireAt = none ∧ ∃ j, j ≠ i ∧ (s.calls j).key = key ∧ (s.calls j).pc = .expire := by
    intro key n hn hsome
    by_cases hkey : key = (s.calls i).key
    · subst hkey
      obtain ⟨n₀, hn₀⟩ := Option.isSome_iff_exists.mp (hsome rfl)
      rw [Counters.incr_self, hn₀] at hn
      cases hn
      have hother := h.others hi hn₀
      exact hother
    · rw [Counters.incr_of_ne hkey] at hn
      exact h.others hi hn
  cases r with
  | failed =>
      apply h.setPc rfl (.inl hi)
      intro key n hn
      exact (h.others hi hn).imp_right fun ⟨hnone, hj⟩ ↦ ⟨hnone, .inr hj⟩
  | lost =>
      apply h.setPc (t := { s with counters := s.counters.incr (s.calls i).key }) rfl (.inl hi)
      intro key n hn
      refine (hold hn ?_).imp_right fun ⟨hnone, hj⟩ ↦ ⟨hnone, .inr hj⟩
      rintro rfl
      exact hg rfl
  | ok =>
      apply h.setPc (t := { s with counters := s.counters.incr (s.calls i).key }) rfl (.inl hi)
      intro key n hn
      by_cases hcreated : (s.calls i).key = key ∧ s.counters key = none
      · obtain ⟨rfl, hnew⟩ := hcreated
        -- the counter is new, and its expiry is the next command
        replace hn : s.counters.incr (s.calls i).key (s.calls i).key = some n := hn
        rw [Counters.incr_self, hnew] at hn
        cases hn
        refine .inr ⟨rfl, .inl ⟨rfl, if_pos ?_⟩⟩
        rw [Counters.value_incr, Counters.value_eq_zero hnew]
      · refine (hold hn ?_).imp_right fun ⟨hnone, hj⟩ ↦ ⟨hnone, .inr hj⟩
        intro hkey
        by_contra hno
        exact hcreated ⟨hkey, Option.not_isSome_iff_eq_none.mp hno⟩

theorem expire {r : Reply} (h : Timely W s) (hi : (s.calls i).pc = .expire) (hg : r ≠ .failed) :
    Timely W (s.expire i r) := by
  have hafter : ∀ {pc : CallPc} {key n},
      s.counters.expire (s.calls i).key s.now (s.ttl i) key = some n →
      n.Timed s.now (1000 * W).toNat ∨ n.expireAt = none ∧
        ((s.calls i).key = key ∧ pc = .expire ∨
          ∃ j, j ≠ i ∧ (s.calls j).key = key ∧ (s.calls j).pc = .expire) := by
    intro pc key n hn
    by_cases hkey : key = (s.calls i).key
    · subst hkey
      have htimed := Counters.timed_of_expire hn
      rw [Limiter.ttl, h.window i (.inr hi)] at htimed
      exact .inl htimed
    · rw [Counters.expire_of_ne hkey] at hn
      apply (h.timed key n hn).imp_right
      rintro ⟨hnone, j, hj, hpc⟩
      refine ⟨hnone, .inr ⟨j, ?_, hj, hpc⟩⟩
      rintro rfl
      exact hkey hj.symm
  cases r with
  | failed => exact absurd rfl hg
  | lost | ok =>
      exact h.setPc (t := { s with counters := s.counters.expire (s.calls i).key s.now (s.ttl i) })
        rfl (.inr hi) fun key n hn ↦ hafter hn

theorem step (h : Timely W s) (hg : Lasting c W (s, w) a) (hn : s.step c a = some s') :
    Timely W s' := by
  cases a with
  | call i scope identifier limit windowSeconds =>
      simp only [Limiter.step, Option.ite_none_right_eq_some, Option.some.injEq] at hn
      obtain ⟨hi, rfl⟩ := hn
      have hne : ∀ {j}, (s.calls j).pc = .expire → j ≠ i := by
        rintro j hj rfl
        rw [hi] at hj
        cases hj
      refine ⟨?_, ?_, ?_⟩
      · intro j hj
        dsimp only at hj ⊢
        by_cases hji : j = i
        · subst hji
          rw [Function.update_self] at hj ⊢
          by_contra hlim
          have hoff : (enforce c scope identifier limit windowSeconds).pc = .done .allowed :=
            if_pos (.inr (Int.not_lt.mp hlim))
          rw [hoff] at hj
          simp at hj
        · rw [Function.update_of_ne hji] at hj ⊢
          exact h.limit j hj
      · intro j hj
        dsimp only at hj ⊢
        by_cases hji : j = i
        · subst hji
          rw [Function.update_self]
          exact hg
        · rw [Function.update_of_ne hji] at hj ⊢
          exact h.window j hj
      · intro key n hn
        apply (h.timed key n hn).imp_right
        rintro ⟨hnone, j, hkey, hj⟩
        refine ⟨hnone, j, ?_⟩
        dsimp only
        rw [Function.update_of_ne (hne hj)]
        exact ⟨hkey, hj⟩
  | incr i r =>
      simp only [Limiter.step, Option.ite_none_right_eq_some, Option.some.injEq] at hn
      obtain ⟨hi, rfl⟩ := hn
      exact h.incr hi hg
  | expire i r =>
      simp only [Limiter.step, Option.ite_none_right_eq_some, Option.some.injEq] at hn
      obtain ⟨hi, rfl⟩ := hn
      exact h.expire hi hg
  | cancel i =>
      simp only [Limiter.step, Option.ite_none_right_eq_some, Option.some.injEq] at hn
      obtain ⟨hi, rfl⟩ := hn
      have hincr := hi.resolve_right hg
      apply h.setPc rfl hi
      intro key n hn
      exact (h.others hincr hn).imp_right fun ⟨hnone, hj⟩ ↦ ⟨hnone, .inr hj⟩
  | tick =>
      cases hn
      refine ⟨h.limit, h.window, ?_⟩
      intro key n hn
      apply (h.timed key n (Counters.sweep_eq_some.mp hn).1).imp_left
      exact Counters.timed_of_sweep hn

end Timely

/-! ## Idle keys -/

/-- No call counts at the key, and its counter is dropped by the time `T`. -/
structure Idle (key : String) (T : Nat) (s : Limiter) : Prop where
  calls : ∀ i, ¬InProgress s i key
  drop : ∀ n, s.counters key = some n → ∃ e, n.expireAt = some e ∧ e ≤ T

namespace Idle

variable {T : Nat}

/-- A call at another key goes on. -/
theorem setPc {t : Limiter} (h : Idle key T s) (hcalls : t.calls = s.calls)
    (hi : (s.calls i).key ≠ key) (hkey : t.counters key = s.counters key) :
    Idle key T (t.setPc i pc) where
  calls j hj := by
    obtain ⟨hj, hpc⟩ := hj
    rw [Limiter.setPc_key, hcalls] at hj
    have hne : j ≠ i := by
      rintro rfl
      exact hi hj
    rw [Limiter.setPc_of_ne hne, hcalls] at hpc
    exact h.calls j ⟨hj, hpc⟩
  drop n hn := h.drop n (hkey ▸ hn)

theorem step (h : Idle key T s) (hb : ¬Begins key a) (hn : s.step c a = some s') :
    Idle key T s' := by
  -- a call in progress is at another key
  have hother : ∀ {i}, (s.calls i).pc = .incr ∨ (s.calls i).pc = .expire →
      (s.calls i).key ≠ key := fun hi hkey ↦ h.calls _ ⟨hkey, hi⟩
  cases a with
  | call i scope identifier limit windowSeconds =>
      simp only [Limiter.step, Option.ite_none_right_eq_some, Option.some.injEq] at hn
      obtain ⟨-, rfl⟩ := hn
      refine ⟨?_, h.drop⟩
      intro j hj
      simp only [InProgress] at hj
      by_cases hji : j = i
      · subst hji
        rw [Function.update_self] at hj
        exact hb hj.1
      · rw [Function.update_of_ne hji] at hj
        exact h.calls j hj
  | incr i r =>
      simp only [Limiter.step, Option.ite_none_right_eq_some, Option.some.injEq] at hn
      obtain ⟨hi, rfl⟩ := hn
      have hkey := hother (.inl hi)
      cases r with
      | failed => exact h.setPc rfl hkey rfl
      | lost | ok =>
          exact h.setPc (t := { s with counters := s.counters.incr (s.calls i).key }) rfl hkey
            (Counters.incr_of_ne hkey.symm)
  | expire i r =>
      simp only [Limiter.step, Option.ite_none_right_eq_some, Option.some.injEq] at hn
      obtain ⟨hi, rfl⟩ := hn
      have hkey := hother (.inr hi)
      cases r with
      | failed => exact h.setPc rfl hkey rfl
      | lost | ok =>
          exact h.setPc (t := { s with
              counters := s.counters.expire (s.calls i).key s.now (s.ttl i) }) rfl hkey
            (Counters.expire_of_ne hkey.symm)
  | cancel i =>
      simp only [Limiter.step, Option.ite_none_right_eq_some, Option.some.injEq] at hn
      obtain ⟨hi, rfl⟩ := hn
      exact h.setPc rfl (hother hi) rfl
  | tick =>
      cases hn
      exact ⟨h.calls, fun n hn ↦ h.drop n (Counters.sweep_eq_some.mp hn).1⟩

end Idle

/-- The first attempt at a counter that does not exist is allowed, whatever Redis does. -/
theorem passes_of_none {r : Reply} (hlimit : 0 < (s.calls i).limit)
    (hnone : s.counters (s.calls i).key = none) (hn : s.step c (.incr i r) = some s') :
    Passes c s' i := by
  simp only [Limiter.step, Option.ite_none_right_eq_some, Option.some.injEq] at hn
  obtain ⟨hi, rfl⟩ := hn
  cases r with
  | failed | lost => exact .inl Limiter.setPc_pc
  | ok =>
      have hone : (s.counters.incr (s.calls i).key).value (s.calls i).key = 1 := by
        rw [Counters.value_incr, Counters.value_eq_zero hnone]
      refine .inr ⟨?_, ?_⟩
      · rw [Limiter.incr, Limiter.setPc_pc, if_pos hone]
      · intro r' t ht
        simp only [Limiter.step, Option.ite_none_right_eq_some, Option.some.injEq] at ht
        obtain ⟨-, rfl⟩ := ht
        cases r' with
        | failed | lost => exact Limiter.setPc_pc
        | ok =>
            have hverdict : verdict (s.calls i).limit 1 = .allowed := if_neg (by omega)
            rw [Limiter.expire, Limiter.setPc_pc, Limiter.incr, Limiter.setPc_limit, hverdict]

/-! ## The attempts of a window -/

/-- Every attempt of a window is refused if and only if its limit is used up; newest first. -/
def InOrder : List Attempt → Prop
  | [] => True
  | x :: before => (x.refused = true ↔ x.limit ≤ before.length) ∧ InOrder before

theorem InOrder.split {l before after : List Attempt} {x : Attempt} (h : InOrder l)
    (hl : l = after ++ x :: before) : x.refused = true ↔ x.limit ≤ before.length := by
  induction after generalizing l with
  | nil =>
      subst hl
      exact h.1
  | cons y after ih =>
      subst hl
      exact ih h.2 rfl

/-- The attempts of a window without failures are in order, and counted. -/
def Counted (s : Limiter) (w : String → List Attempt) : Prop :=
  ∀ key, (∀ x ∈ w key, x.failed = false) →
    s.counters.value key = (w key).length ∧ InOrder (w key)

namespace Counted

protected theorem init : Counted .init fun _ ↦ [] := fun _ _ ↦ ⟨rfl, trivial⟩

/-- A step that makes no attempt, and keeps or drops the counters. -/
theorem of_kept {w' : String → List Attempt} (h : Counted s w)
    (hw : ∀ key, w' key = if (s'.counters key).isNone then [] else w key)
    (hkept : ∀ key, s'.counters key = none ∨ s'.counters.value key = s.counters.value key) :
    Counted s' w' := by
  intro key hok
  rw [hw] at hok ⊢
  cases hc : s'.counters key with
  | none =>
      rw [hc] at hok
      exact ⟨Counters.value_eq_zero hc, trivial⟩
  | some n =>
      rw [hc] at hok
      rw [(hkept key).resolve_left (by simp [hc])]
      exact h key hok

/-- An attempt at `key` is added to its window, and the other windows stay. -/
theorem of_attempt {w' : String → List Attempt} {x : Attempt} (h : Counted s w)
    (hother : ∀ key', key' ≠ key → s'.counters key' = s.counters key')
    (hw : ∀ key', w' key' = if (s'.counters key').isNone then []
      else if key = key' then x :: w key' else w key')
    (hx : x.failed = false → (∀ y ∈ w key, y.failed = false) →
      s'.counters.value key = s.counters.value key + 1 ∧
        (x.refused = true ↔ x.limit ≤ s.counters.value key)) :
    Counted s' w' := by
  intro key' hok
  rw [hw] at hok ⊢
  cases hc : s'.counters key' with
  | none => exact ⟨Counters.value_eq_zero hc, trivial⟩
  | some n =>
      rw [hc] at hok
      simp only [Option.isNone_some, Bool.false_eq_true, if_false] at hok ⊢
      by_cases hkey : key = key'
      · subst hkey
        rw [if_pos rfl] at hok ⊢
        have hrest : ∀ y ∈ w key, y.failed = false :=
          fun y hy ↦ hok y (List.mem_cons_of_mem _ hy)
        obtain ⟨hcount, horder⟩ := h key hrest
        obtain ⟨hvalue, hrefused⟩ := hx (hok x List.mem_cons_self) hrest
        rw [hcount] at hvalue hrefused
        exact ⟨hvalue, hrefused, horder⟩
      · rw [if_neg hkey] at hok ⊢
        have hsame : s'.counters.value key' = s.counters.value key' := by
          rw [Counters.value, Counters.value, hother key' (Ne.symm hkey)]
        rw [hsame]
        exact h key' hok

theorem incr {r : Reply} {w' : String → List Attempt} (h : Counted s w)
    (hlimit : 0 < (s.calls i).limit)
    (hw : ∀ key, w' key = if ((s.incr i r).counters key).isNone then []
      else if (s.calls i).key = key then
        ⟨(s.calls i).limit, ((s.incr i r).calls i).pc = .done .limited, r ≠ .ok⟩ :: w key
      else w key) :
    Counted (s.incr i r) w' := by
  cases r with
  | failed =>
      apply h.of_attempt (fun key' _ ↦ rfl) hw
      intro hfailed
      simp at hfailed
  | lost =>
      apply h.of_attempt (fun key' hne ↦ Counters.incr_of_ne hne) hw
      intro hfailed
      simp at hfailed
  | ok =>
      apply h.of_attempt (fun key' hne ↦ Counters.incr_of_ne hne) hw
      intro _ _
      refine ⟨Counters.value_incr, ?_⟩
      simp only [Limiter.incr, Limiter.setPc_pc, Counters.value_incr, decide_eq_true_eq]
      by_cases hzero : s.counters.value (s.calls i).key = 0
      · rw [hzero, if_pos rfl]
        simp only [reduceCtorEq, false_iff]
        omega
      · rw [if_neg (by omega), verdict]
        split
        · next hlt => exact ⟨fun _ ↦ by omega, fun _ ↦ rfl⟩
        · next hlt => exact ⟨fun hno ↦ by simp at hno, fun hle ↦ absurd hle (by omega)⟩

theorem step (h : Counted s w) (hlimit : ∀ i, (s.calls i).pc = .incr → 0 < (s.calls i).limit)
    (hn : s.step c a = some s') : Counted s' (windows c s a w) := by
  have hw : ∀ key, windows c s a w key = if (s'.counters key).isNone then []
      else match attemptOf s s' key a with
        | some x => x :: w key
        | none => w key := fun key ↦ by rw [windows, hn]
  cases a with
  | call i scope identifier limit windowSeconds =>
      simp only [Limiter.step, Option.ite_none_right_eq_some, Option.some.injEq] at hn
      obtain ⟨-, rfl⟩ := hn
      exact h.of_kept hw fun key ↦ .inr rfl
  | incr i r =>
      simp only [Limiter.step, Option.ite_none_right_eq_some, Option.some.injEq] at hn
      obtain ⟨hi, rfl⟩ := hn
      apply h.incr (hlimit i hi)
      intro key
      rw [hw, attemptOf]
      by_cases hkey : (s.calls i).key = key
      · rw [if_pos hkey, if_pos hkey]
      · rw [if_neg hkey, if_neg hkey]
  | expire i r =>
      simp only [Limiter.step, Option.ite_none_right_eq_some, Option.some.injEq] at hn
      obtain ⟨-, rfl⟩ := hn
      have hkept : ∀ key, s.counters.expire (s.calls i).key s.now (s.ttl i) key = none ∨
          Counters.value (s.counters.expire (s.calls i).key s.now (s.ttl i)) key =
            s.counters.value key := by
        intro key
        by_cases hkey : key = (s.calls i).key
        · subst hkey
          cases hc : s.counters.expire (s.calls i).key s.now (s.ttl i) (s.calls i).key with
          | none => exact .inl rfl
          | some n =>
              obtain ⟨n₀, hn₀, hcount⟩ := Counters.expire_count hc
              apply Or.inr
              rw [Counters.value, Counters.value, hc, hn₀]
              exact hcount.symm
        · apply Or.inr
          rw [Counters.value, Counters.value, Counters.expire_of_ne hkey]
      cases r with
      | failed => exact h.of_kept hw fun key ↦ .inr rfl
      | lost | ok => exact h.of_kept hw hkept
  | cancel i =>
      simp only [Limiter.step, Option.ite_none_right_eq_some, Option.some.injEq] at hn
      obtain ⟨-, rfl⟩ := hn
      exact h.of_kept hw fun key ↦ .inr rfl
  | tick =>
      cases hn
      apply h.of_kept hw
      intro key
      cases hc : s.counters.sweep (s.now + 1) key with
      | none => exact .inl hc
      | some n =>
          apply Or.inr
          dsimp only
          rw [Counters.value, Counters.value, hc, (Counters.sweep_eq_some.mp hc).1]

end Counted

/-! ## No lockout -/

/-- The invariants of every run within the condition. -/
theorem timely_and_counted {x : Limiter × (String → List Attempt)}
    (h : (limiter c).Reach (Lasting c W) x) : Timely W x.1 ∧ Counted x.1 x.2 := by
  apply h.invariant (P := fun x ↦ Timely W x.1 ∧ Counted x.1 x.2) ⟨Timely.init, Counted.init⟩
  intro y a z hy hg hn
  obtain ⟨t, ht, rfl⟩ := Option.map_eq_some_iff.mp hn
  exact ⟨hy.1.step hg ht, hy.2.step (fun i hi ↦ hy.1.limit i (.inl hi)) ht⟩

/-- While no call counts at a key its counter expires within the window. -/
theorem Timely.expires (h : Timely W s) (hidle : ∀ i, ¬InProgress s i key) :
    ∀ n, s.counters key = some n → n.Timed s.now (1000 * W).toNat := by
  intro n hn
  apply (h.timed key n hn).resolve_right
  rintro ⟨-, i, hkey, hi⟩
  exact hidle i ⟨hkey, .inr hi⟩

theorem Timely.idle (h : Timely W s) (hidle : ∀ i, ¬InProgress s i key) :
    Idle key (s.now + (1000 * W).toNat) s := by
  refine ⟨hidle, ?_⟩
  intro n hn
  obtain ⟨e, he, -, hle⟩ := h.expires hidle n hn
  exact ⟨e, he, hle⟩

/-- While a key is left alone it stays idle. -/
theorem Idle.run {T : Nat} {x y : Limiter × (String → List Attempt)} (h : Idle key T x.1)
    (ht : Timely W x.1)
    (hsteps : (limiter c).Steps (fun z a ↦ Lasting c W z a ∧ ¬Begins key a) x y) :
    Idle key T y.1 ∧ Timely W y.1 := by
  induction hsteps with
  | refl => exact ⟨h, ht⟩
  | tail _ hstep ih =>
      obtain ⟨a, ⟨hg, hb⟩, hn⟩ := hstep
      obtain ⟨t, ht, rfl⟩ := Option.map_eq_some_iff.mp hn
      exact ⟨ih.1.step hb ht, ih.2.step hg ht⟩

/-- The counter of an idle key is gone by its time. -/
theorem Idle.counters_eq_none {T : Nat} (h : Idle key T s) (ht : Timely W s) (hnow : T ≤ s.now) :
    s.counters key = none := by
  by_contra hsome
  obtain ⟨n, hn⟩ := Option.ne_none_iff_exists'.mp hsome
  obtain ⟨e, he, hle⟩ := h.drop n hn
  rcases ht.timed key n hn with ⟨e', he', hlt, -⟩ | ⟨-, i, hkey, hi⟩
  · cases he.symm.trans he'
    omega
  · exact h.calls i ⟨hkey, .inr hi⟩

/-- An attempt without a counter passes. -/
theorem passes_of_call {scope : String} {identifier : Option String}
    {limit windowSeconds : Option Int} {r : Reply} {t : Limiter}
    (hkey : counterKey scope identifier = key) (hnone : s.counters key = none)
    (hs : s.step c (.call i scope identifier limit windowSeconds) = some t)
    (ht : t.step c (.incr i r) = some s') : Passes c s' i := by
  simp only [Limiter.step, Option.ite_none_right_eq_some, Option.some.injEq] at hs
  obtain ⟨-, rfl⟩ := hs
  have hcall := ht
  simp only [Limiter.step, Option.ite_none_right_eq_some, Function.update_self] at hcall
  refine passes_of_none ?_ ?_ ht
  · dsimp only
    rw [Function.update_self]
    by_contra hlim
    have hoff : (enforce c scope identifier limit windowSeconds).pc = .done .allowed :=
      if_pos (.inr (Int.not_lt.mp hlim))
    rw [hoff] at hcall
    cases hcall.1
  · dsimp only
    have hsame : (enforce c scope identifier limit windowSeconds).key = key := hkey
    rw [Function.update_self, hsame]
    exact hnone

/-- **No lockout.**  In every run in which no expiry gets lost: while no call counts at a key, its
counter, if there is one, expires within the window; so once the key has been left alone for a
window the counter is gone, and the next attempt passes; and in a window in which no `INCR`
fails an attempt is refused if and only if as many attempts as its limit came before it. -/
theorem no_lockout (c : RateConfig) (W : Int) (x : Limiter × (String → List Attempt))
    (h : (limiter c).Reach (Lasting c W) x) (key : String) :
    ((∀ i, ¬InProgress x.1 i key) →
      ∀ n, x.1.counters key = some n → n.Timed x.1.now (1000 * W).toNat) ∧
    ((∀ i, ¬InProgress x.1 i key) → ∀ y,
      (limiter c).Steps (fun z a ↦ Lasting c W z a ∧ ¬Begins key a) x y →
      x.1.now + (1000 * W).toNat ≤ y.1.now → y.1.counters key = none ∧
        ∀ i scope identifier limit windowSeconds r s s', counterKey scope identifier = key →
          y.1.step c (.call i scope identifier limit windowSeconds) = some s →
          s.step c (.incr i r) = some s' → Passes c s' i) ∧
    ((∀ a ∈ x.2 key, a.failed = false) →
      ∀ (after : List Attempt) (a : Attempt) (before : List Attempt),
        x.2 key = after ++ a :: before → (a.refused = true ↔ a.limit ≤ before.length)) := by
  obtain ⟨htimely, hcounted⟩ := timely_and_counted h
  refine ⟨htimely.expires, ?_, fun hok after a before ↦ (hcounted key hok).2.split⟩
  intro hidle y hsteps hnow
  obtain ⟨hy, ht⟩ := (htimely.idle hidle).run htimely hsteps
  have hnone : y.1.counters key = none := hy.counters_eq_none ht hnow
  refine ⟨hnone, ?_⟩
  intro i scope identifier limit windowSeconds r s s' hkey hs hs'
  exact passes_of_call hkey hnone hs hs'

/-- Three attempts with a limit of two, the last `EXPIRE` answer lost. -/
def threeAttempts : List LimitAct :=
  [.call 0 "auth_ip" (some "10.0.0.1") none none, .incr 0 .ok,
    .call 1 "auth_ip" (some "10.0.0.1") none none, .incr 1 .ok, .expire 0 .lost,
    .call 2 "auth_ip" (some "10.0.0.1") none none, .tick, .incr 2 .ok]

/-- The key of the attempts. -/
def addressKey : String := counterKey "auth_ip" (some "10.0.0.1")

instance (c : RateConfig) (W : Int) (x : Limiter × (String → List Attempt)) (a : LimitAct) :
    Decidable (Lasting c W x a) :=
  match a with
  | .call _ _ _ _ windowSeconds =>
      inferInstanceAs (Decidable (windowSeconds.getD c.authRateLimitWindowSeconds = W))
  | .incr i r =>
      inferInstanceAs (Decidable (r = .lost → (x.1.counters (x.1.calls i).key).isSome = true))
  | .expire _ r => inferInstanceAs (Decidable (r ≠ .failed))
  | .cancel i => inferInstanceAs (Decidable ((x.1.calls i).pc ≠ .expire))
  | .tick => inferInstanceAs (Decidable True)

/-- `no_lockout` at a run in which the third attempt is refused. -/
theorem no_lockout_threeAttempts : ∃ x, (limiter ⟨2, 60⟩).Reach (Lasting ⟨2, 60⟩ 60) x ∧
    (x.2 addressKey).map Attempt.refused = [true, false, false] ∧
    ((∀ i, ¬InProgress x.1 i addressKey) →
      ∀ n, x.1.counters addressKey = some n → n.Timed x.1.now 60000) ∧
    ((∀ a ∈ x.2 addressKey, a.failed = false) →
      ∀ (after : List Attempt) (a : Attempt) (before : List Attempt),
        x.2 addressKey = after ++ a :: before → (a.refused = true ↔ a.limit ≤ before.length)) := by
  obtain ⟨x, hx, hr⟩ := System.Reach.of_exec (S := limiter ⟨2, 60⟩) (g := Lasting ⟨2, 60⟩ 60)
    (l := threeAttempts) (f := fun x ↦ (x.2 addressKey).map Attempt.refused)
    (b := [true, false, false]) (by decide)
  obtain ⟨htimed, -, horder⟩ := no_lockout ⟨2, 60⟩ 60 x hx addressKey
  exact ⟨x, hx, hr, htimed, horder⟩

/-! ## A lost expiry -/

/-- A counter without an expiry is there after any time. -/
theorem counter_of_ticks {x y : Limiter × (String → List Attempt)} (key : String) {n : Nat}
    (hx : x.1.counters key = some ⟨n, none⟩)
    (h : (limiter c).Steps (fun _ a ↦ a = .tick) x y) :
    y.1.counters key = some ⟨n, none⟩ ∧ y.1.calls = x.1.calls := by
  induction h with
  | refl => exact ⟨hx, rfl⟩
  | tail _ hstep ih =>
      obtain ⟨a, rfl, hn⟩ := hstep
      obtain rfl := Option.some.inj hn
      exact ⟨Counters.sweep_eq_some.mpr ⟨ih.1, by simp⟩, ih.2⟩

/-- After an attempt whose `EXPIRE` failed no call is in progress and the counter has no expiry;
however long the address then waits, its next attempt is refused. -/
theorem lockout_of_lostExpiry : ∃ x, (limiter ⟨1, 60⟩).Reachable x ∧
    (∀ i, ¬InProgress x.1 i addressKey) ∧ x.1.counters addressKey = some ⟨1, none⟩ ∧
    ∀ y, (limiter ⟨1, 60⟩).Steps (fun _ a ↦ a = .tick) x y →
      ∃ s s', y.1.step ⟨1, 60⟩ (.call 1 "auth_ip" (some "10.0.0.1") none none) = some s ∧
        s.step ⟨1, 60⟩ (.incr 1 .ok) = some s' ∧ (s'.calls 1).pc = .done .limited := by
  refine ⟨_, .step (a := .expire 0 .failed) (.step (a := .incr 0 .ok)
    (.step (a := .call 0 "auth_ip" (some "10.0.0.1") none none) .init trivial rfl)
      trivial rfl) trivial rfl, ?_, rfl, ?_⟩
  · intro i hi
    obtain ⟨-, hi⟩ := hi
    by_cases h0 : i = 0
    · subst h0
      rcases hi with hi | hi <;> cases hi
    · rw [Limiter.expire, Limiter.setPc_of_ne h0, Limiter.incr, Limiter.setPc_of_ne h0] at hi
      dsimp only at hi
      rw [Function.update_of_ne h0] at hi
      rcases hi with hi | hi <;> cases hi
  · intro y hy
    obtain ⟨hcounter, hcalls⟩ := counter_of_ticks addressKey rfl hy
    have habsent : (y.1.calls 1).pc = .absent := by
      rw [hcalls]
      rfl
    let call : Call := enforce ⟨1, 60⟩ "auth_ip" (some "10.0.0.1") none none
    let s : Limiter := { y.1 with calls := Function.update y.1.calls 1 call }
    have hs : s.calls 1 = call := Function.update_self 1 call y.1.calls
    have hpc : (s.calls 1).pc = .incr := by
      rw [hs]
      decide
    have htwo : (s.counters.incr (s.calls 1).key).value (s.calls 1).key = 2 := by
      have hvalue : s.counters.value addressKey = 1 := by
        rw [Counters.value]
        exact congrArg (Option.elim · 0 Counter.count) hcounter
      rw [Counters.value_incr, hs]
      exact congrArg (· + 1) hvalue
    refine ⟨s, s.incr 1 .ok, if_pos habsent, Limiter.step_incr hpc, ?_⟩
    rw [Limiter.incr, Limiter.setPc_pc, htwo, if_neg (by decide), hs]
    rfl

end Adapta.Auth
