import Adapta.Lib.System

/-!
# The settings cache

`adapta/services/app_settings.py` keeps what `resolve_setting` has read in a dictionary of the
process, for thirty seconds, and `upsert_setting` and `delete_setting` take the entry out once
they have committed.  All three await the database, so between any two of their steps the
others may run: a reader that has its answer stores it in a later step, perhaps after the
writer that made it out of date has taken the entry out.

A step is one statement or commit at the database, or the code of a coroutine between two
awaits.  Writers commit under READ COMMITTED: an `UPDATE` or `DELETE` is for the row, by its
id, that was read before, and sets the columns that were changed with respect to what was read.

Values are the numbers of the whitelist, of any type `V`; the JSON text that a row holds is left
out, since a number survives `json.loads(json.dumps(x))`.
-/

namespace Adapta.AppSettings

open Lib

variable {V : Type}

/-- What the whitelist and the environment say. -/
structure Config (V : Type) where
  whitelisted : String → Bool
  /-- `_validate` accepts the value for the key. -/
  valid : String → V → Bool
  envDefault : String → V

/-- A team and a key. -/
abbrev Slot := String × String

/-- An `AppSetting`. -/
structure Row (V : Type) where
  id : Nat
  value : V
  updatedBy : String
deriving DecidableEq, Repr

/-- The calls and their arguments. -/
inductive Call (V : Type) where
  | resolveSetting
  | upsertSetting (value : V) (updatedBy : String)
  | deleteSetting
deriving DecidableEq, Repr

inductive Pc (V : Type) where
  | absent
  /-- Before the `SELECT`. -/
  | begun
  /-- The `SELECT` has been answered. -/
  | read (row : Option (Row V))
  /-- The commit has been answered. -/
  | committed
  /-- The call has returned; `resolve_setting` with a value. -/
  | returned (value : Option V)
  | raised
deriving DecidableEq, Repr

abbrev OpId := Nat

structure Op (V : Type) where
  call : Call V
  slot : Slot
  pc : Pc V
deriving DecidableEq, Repr

structure State (V : Type) where
  /-- `time.monotonic`, in milliseconds. -/
  now : Nat
  /-- The committed rows; team and key are unique. -/
  table : Slot → Option (Row V)
  nextId : Nat
  /-- `_cache`. -/
  cache : Slot → Option (V × Nat)
  ops : OpId → Op V

namespace State

def init : State V :=
  { now := 0, table := fun _ ↦ none, nextId := 0, cache := fun _ ↦ none
    ops := fun _ ↦ ⟨.resolveSetting, ("", ""), .absent⟩ }

variable (c : Config V) (s : State V) (i : OpId)

def setPc (pc : Pc V) : State V :=
  { s with ops := Function.update s.ops i { s.ops i with pc := pc } }

/-- `_CACHE_TTL_SECONDS`. -/
def cacheTtl : Nat := 30000

/-- `_cache_get`. -/
def cacheGet (slot : Slot) : Option V :=
  (s.cache slot).bind fun x ↦ if x.2 ≤ s.now then none else some x.1

/-- The value that a row, or its absence, stands for. -/
def valueOf (key : String) (row : Option (Row V)) : V := row.elim (c.envDefault key) Row.value

/-- A call begins, and runs to its first await. -/
def call (call : Call V) (slot : Slot) : State V :=
  let pc : Pc V :=
    match call with
    | .resolveSetting =>
        match s.cacheGet slot with
        | some v => .returned (some v)
        | none => .begun
    | .upsertSetting v _ => if c.whitelisted slot.2 && c.valid slot.2 v then .begun else .raised
    | .deleteSetting => if c.whitelisted slot.2 then .begun else .raised
  { s with ops := Function.update s.ops i ⟨call, slot, pc⟩ }

/-- The row of a slot after the flush of an upsert that has read `row`, or `none` if the flush
raises: an `IntegrityError` for the second row of a slot, a `StaleDataError` for a row that is
gone. -/
def flushUpsert [DecidableEq V] (current row : Option (Row V)) (v : V) (updatedBy : String)
    (id : Nat) : Option (Option (Row V)) :=
  match row with
  | none =>
      match current with
      | none => some (some ⟨id, v, updatedBy⟩)
      | some _ => none
  | some r =>
      -- nothing has changed, so nothing is flushed
      if r.value = v ∧ r.updatedBy = updatedBy then some current
      else
        match current with
        | none => none
        | some x =>
            if x.id = r.id then
              some (some ⟨x.id, if r.value = v then x.value else v,
                if r.updatedBy = updatedBy then x.updatedBy else updatedBy⟩)
            else none

/-- The row of a slot after the flush of a delete that has read `r`. -/
def flushDelete (current : Option (Row V)) (r : Row V) : Option (Row V) :=
  current.filter fun x ↦ x.id ≠ r.id

/-- `db.commit()` in `upsert_setting`. -/
def commitUpsert [DecidableEq V] (v : V) (updatedBy : String) (row : Option (Row V)) : State V :=
  let slot := (s.ops i).slot
  match flushUpsert (s.table slot) row v updatedBy s.nextId with
  | none => s.setPc i .raised
  | some row' =>
      { s with table := Function.update s.table slot row', nextId := s.nextId + 1 }.setPc i .committed

/-- `db.commit()` in `delete_setting`. -/
def commitDelete (r : Row V) : State V :=
  let slot := (s.ops i).slot
  { s with table := Function.update s.table slot (flushDelete (s.table slot) r) }.setPc i .committed

/-- The end of `resolve_setting`: the value is stored and returned. -/
def fill (row : Option (Row V)) : State V :=
  let slot := (s.ops i).slot
  let value := valueOf c slot.2 row
  { s with cache := Function.update s.cache slot (some (value, s.now + cacheTtl)) }.setPc i
    (.returned (some value))

/-- The end of a write: `_cache_invalidate`. -/
def invalidate : State V :=
  { s with cache := Function.update s.cache (s.ops i).slot none }.setPc i (.returned none)

end State

inductive Act (V : Type) where
  | call (i : OpId) (call : Call V) (slot : Slot)
  /-- The `SELECT` of a call. -/
  | select (i : OpId)
  /-- The commit of a write. -/
  | commit (i : OpId)
  /-- The coroutine of a call runs to its end. -/
  | resume (i : OpId)
  /-- A millisecond passes. -/
  | tick
deriving DecidableEq, Repr

/-- One step of the process and its database. -/
def step [DecidableEq V] (c : Config V) (s : State V) : Act V → Option (State V)
  | .call i call slot => if (s.ops i).pc = .absent then some (s.call c i call slot) else none
  | .select i =>
      if (s.ops i).pc = .begun then some (s.setPc i (.read (s.table (s.ops i).slot))) else none
  | .commit i =>
      match (s.ops i).call, (s.ops i).pc with
      | .upsertSetting v updatedBy, .read row => some (s.commitUpsert i v updatedBy row)
      | .deleteSetting, .read (some r) => some (s.commitDelete i r)
      | _, _ => none
  | .resume i =>
      match (s.ops i).call, (s.ops i).pc with
      | .resolveSetting, .read row => some (s.fill c i row)
      | .deleteSetting, .read none => some (s.invalidate i)
      | .upsertSetting _ _, .committed => some (s.invalidate i)
      | .deleteSetting, .committed => some (s.invalidate i)
      | _, _ => none
  | .tick => some { s with now := s.now + 1 }

/-! ## Histories -/

/-- What has been promised. -/
structure History (V : Type) where
  /-- The write of a slot that committed last, and the value that it has established.  A delete
  that finds no row commits nothing: the default is in force then. -/
  last : Slot → Option OpId × V
  /-- The value that a `resolve_setting` is to return: the one that the last write of its slot
  had established when it began, if that write had returned and no other has committed since. -/
  promised : OpId → Option V

/-- The call has returned. -/
def Pc.isReturned : Pc V → Bool
  | .returned _ => true
  | .absent | .begun | .read _ | .committed | .raised => false

namespace History

def init (c : Config V) : History V :=
  { last := fun slot ↦ (none, c.envDefault slot.2), promised := fun _ ↦ none }

variable (g : History V)

/-- The last write of the slot has returned. -/
def settled (s : State V) (slot : Slot) : Bool :=
  (g.last slot).1.all fun j ↦ (s.ops j).pc.isReturned

/-- A write commits. -/
def establish (s : State V) (i : OpId) (v : V) : History V :=
  { last := Function.update g.last (s.ops i).slot (some i, v)
    promised := fun j ↦
      if (s.ops j).slot = (s.ops i).slot ∧ (s.ops j).pc.isReturned = false then none
      else g.promised j }

/-- A `resolve_setting` begins. -/
def promise (s : State V) (i : OpId) (slot : Slot) : History V :=
  let value := if g.settled s slot then some (g.last slot).2 else none
  { g with promised := Function.update g.promised i value }

end History

/-- The value that a write establishes. -/
def established (c : Config V) (key : String) : Call V → V
  | .upsertSetting v _ => v
  | .resolveSetting | .deleteSetting => c.envDefault key

def record [DecidableEq V] (c : Config V) (s : State V) (a : Act V) (g : History V) : History V :=
  match a with
  | .call i .resolveSetting slot => g.promise s i slot
  | .commit i =>
      if ((step c s a).map fun s' ↦ (s'.ops i).pc) = some .committed then
        g.establish s i (established c (s.ops i).slot.2 (s.ops i).call)
      else g
  | _ => g

/-- The process with its database and the history. -/
def process [DecidableEq V] (c : Config V) : System (State V × History V) (Act V) :=
  System.ghost ⟨State.init, step c⟩ (History.init c) (record c)

/-! ## Statement -/

/-- The value of a slot in the table. -/
def current (c : Config V) (s : State V) (slot : Slot) : V := State.valueOf c slot.2 (s.table slot)

/-- The condition.  A `resolve_setting` stores what it has read only while the table still has it,
or while the last write of its slot is still to take the entry out; and a write that commits is
the write of the row it has read: a delete finds that row or none, and an upsert whose value was
there when it read the row finds it there still. -/
def inTime [DecidableEq V] (c : Config V) (x : State V × History V) : Act V → Bool
  | .resume i =>
      let op := x.1.ops i
      match op.call, op.pc with
      | .resolveSetting, .read row =>
          !x.2.settled x.1 op.slot || State.valueOf c op.slot.2 row = current c x.1 op.slot
      | _, _ => true
  | .commit i =>
      let op := x.1.ops i
      match op.call, op.pc with
      | .upsertSetting v updatedBy, .read (some r) =>
          r.value ≠ v || (State.flushUpsert (x.1.table op.slot) (some r) v updatedBy 0).isNone ||
            current c x.1 op.slot = v
      | .deleteSetting, .read (some r) => (x.1.table op.slot).all fun x ↦ x.id = r.id
      | _, _ => true
  | _ => true

def InTime [DecidableEq V] (c : Config V) (x : State V × History V) (a : Act V) : Prop :=
  inTime c x a = true

instance [DecidableEq V] (c : Config V) (x : State V × History V) (a : Act V) :
    Decidable (InTime c x a) := inferInstanceAs (Decidable (inTime c x a = true))

/-! ## The invariant -/

variable {c : Config V} {s s' : State V} {g : History V} {i j : OpId} {slot : Slot} {a : Act V}
  {u : V} {pc : Pc V}

/-- What a promise means at the stages of a `resolve_setting`. -/
structure Promise (c : Config V) (s : State V) (g : History V) (i : OpId) (u : V) : Prop where
  resolve : (s.ops i).call = .resolveSetting
  present : (s.ops i).pc ≠ .absent
  begun : (s.ops i).pc = .begun → g.settled s (s.ops i).slot = true ∧ (g.last (s.ops i).slot).2 = u
  read : ∀ row, (s.ops i).pc = .read row → State.valueOf c (s.ops i).slot.2 row = u
  returned : ∀ v, (s.ops i).pc = .returned v → v = some u

/-- The table has what the last write has established, a settled slot has nothing else in the
cache, the last write is between its commit and its end or has returned, and promises are kept. -/
structure Inv (c : Config V) (x : State V × History V) : Prop where
  table : ∀ slot, current c x.1 slot = (x.2.last slot).2
  cache : ∀ slot, x.2.settled x.1 slot = true → ∀ y, x.1.cache slot = some y →
    y.1 = (x.2.last slot).2
  writer : ∀ slot j, (x.2.last slot).1 = some j → (x.1.ops j).slot = slot ∧
    (x.1.ops j).call ≠ .resolveSetting ∧
    ((x.1.ops j).pc = .committed ∨ (x.1.ops j).pc.isReturned = true)
  promise : ∀ i u, x.2.promised i = some u → Promise c x.1 x.2 i u

theorem settled_of_ne (hops : ∀ j, j ≠ i → s'.ops j = s.ops j) (hne : (g.last slot).1 ≠ some i) :
    g.settled s' slot = g.settled s slot := by
  rw [History.settled, History.settled]
  cases h : (g.last slot).1 with
  | none => rfl
  | some j =>
      have hji : j ≠ i := by
        rintro rfl
        exact hne h
      rw [Option.all_some, Option.all_some, hops j hji]

theorem setPc_of_ne (h : j ≠ i) : (s.setPc i pc).ops j = s.ops j := by simp [State.setPc, h]

theorem setPc_self : (s.setPc i pc).ops i = { s.ops i with pc := pc } := by simp [State.setPc]

/-! A promise at each stage of its call. -/

theorem Promise.of_begun (hi : s.ops i = ⟨.resolveSetting, slot, .begun⟩)
    (hs : g.settled s slot = true) (hu : (g.last slot).2 = u) : Promise c s g i u := by
  refine ⟨by rw [hi], by rw [hi]; simp, ?_, ?_, ?_⟩
  · intro _
    rw [hi]
    exact ⟨hs, hu⟩
  · intro row hpc
    rw [hi] at hpc
    cases hpc
  · intro v hpc
    rw [hi] at hpc
    cases hpc

theorem Promise.of_read {row : Option (Row V)}
    (hi : s.ops i = ⟨.resolveSetting, slot, .read row⟩) (hu : State.valueOf c slot.2 row = u) :
    Promise c s g i u := by
  refine ⟨by rw [hi], by rw [hi]; simp, ?_, ?_, ?_⟩
  · intro hpc
    rw [hi] at hpc
    cases hpc
  · intro row' hpc
    rw [hi] at hpc ⊢
    cases hpc
    exact hu
  · intro v hpc
    rw [hi] at hpc
    cases hpc

theorem Promise.of_returned (hi : s.ops i = ⟨.resolveSetting, slot, .returned (some u)⟩) :
    Promise c s g i u := by
  refine ⟨by rw [hi], by rw [hi]; simp, ?_, ?_, ?_⟩
  · intro hpc
    rw [hi] at hpc
    cases hpc
  · intro row hpc
    rw [hi] at hpc
    cases hpc
  · intro v hpc
    rw [hi] at hpc
    cases hpc
    rfl

/-- A promise to a call that a step of another call does not concern. -/
theorem Promise.of_ne {g' : History V} (h : Promise c s g j u) (hj : s'.ops j = s.ops j)
    (hs : g.settled s (s.ops j).slot = true → (g.last (s.ops j).slot).2 = u →
      (s.ops j).pc = .begun →
      g'.settled s' (s.ops j).slot = true ∧ (g'.last (s.ops j).slot).2 = u) :
    Promise c s' g' j u where
  resolve := hj ▸ h.resolve
  present := hj ▸ h.present
  begun hpc := by
    rw [hj] at hpc ⊢
    obtain ⟨hset, hlast⟩ := h.begun hpc
    exact hs hset hlast hpc
  read row hpc := by
    rw [hj] at hpc ⊢
    exact h.read row hpc
  returned v hpc := by
    rw [hj] at hpc
    exact h.returned v hpc

namespace Inv

protected theorem init : Inv c (State.init, History.init c) where
  table slot := rfl
  cache slot _ y hy := by cases hy
  writer slot j hj := by cases hj
  promise i u hu := by cases hu

/-- A call whose commit has not been answered is not the last write of a slot. -/
theorem not_writer (h : Inv c (s, g)) (hc : (s.ops i).pc ≠ .committed)
    (hr : (s.ops i).pc.isReturned = false) (slot : Slot) : (g.last slot).1 ≠ some i := by
  intro hi
  obtain ⟨-, -, hpc | hpc⟩ := h.writer slot i hi
  · exact hc hpc
  · rw [hr] at hpc
    cases hpc

/-- A step of a call that is not the last write of a slot: it leaves the table, and puts nothing
new in the cache of a settled slot. -/
theorem of_step {g' : History V} (h : Inv c (s, g)) (hops : ∀ j, j ≠ i → s'.ops j = s.ops j)
    (hne : ∀ slot, (g.last slot).1 ≠ some i) (htable : s'.table = s.table)
    (hlast : g'.last = g.last) (hpromised : ∀ j, j ≠ i → g'.promised j = g.promised j)
    (hcache : ∀ slot, g.settled s slot = true → ∀ y, s'.cache slot = some y →
      s.cache slot = some y ∨ y.1 = (g.last slot).2)
    (hi : ∀ u, g'.promised i = some u → Promise c s' g' i u) : Inv c (s', g') := by
  have hsettled : ∀ slot, g'.settled s' slot = g.settled s slot := by
    intro slot
    rw [← settled_of_ne hops (hne slot), History.settled, History.settled, hlast]
  refine ⟨?_, ?_, ?_, ?_⟩
  · intro slot
    rw [current, htable, hlast]
    exact h.table slot
  · intro slot hs y hy
    rw [hsettled] at hs
    rw [hlast]
    rcases hcache slot hs y hy with hold | hnew
    · exact h.cache slot hs y hold
    · exact hnew
  · intro slot j hj
    rw [hlast] at hj
    have hji : j ≠ i := by
      rintro rfl
      exact hne slot hj
    rw [hops j hji]
    exact h.writer slot j hj
  · intro j u hu
    by_cases hji : j = i
    · subst hji
      exact hi u hu
    · rw [hpromised j hji] at hu
      apply (h.promise j u hu).of_ne (hops j hji)
      intro hs hlu _
      rw [hsettled, hlast]
      exact ⟨hs, hlu⟩

/-- The state of a call that is not the last write, for every stage before its commit. -/
theorem idle (h : Inv c (s, g)) (hpc : (s.ops i).pc = .absent ∨ (s.ops i).pc = .begun ∨
    ∃ row, (s.ops i).pc = .read row) (slot : Slot) : (g.last slot).1 ≠ some i := by
  refine h.not_writer ?_ ?_ slot
  · rcases hpc with hpc | hpc | ⟨row, hpc⟩ <;> rw [hpc] <;> simp
  · rcases hpc with hpc | hpc | ⟨row, hpc⟩ <;> rw [hpc] <;> rfl

/-- Only a `resolve_setting` has a promise. -/
theorem promised_eq_none (h : Inv c (s, g)) (hcall : (s.ops i).call ≠ .resolveSetting) :
    g.promised i = none := by
  cases hp : g.promised i with
  | none => rfl
  | some u => exact absurd (h.promise i u hp).resolve hcall

theorem resolve (h : Inv c (s, g)) (hi : (s.ops i).pc = .absent) :
    Inv c (s.call c i .resolveSetting slot, g.promise s i slot) := by
  have hne := h.idle (.inl hi)
  have hops : ∀ j, j ≠ i → (s.call c i .resolveSetting slot).ops j = s.ops j :=
    fun j hj ↦ Function.update_of_ne hj _ _
  have hself : (s.call c i .resolveSetting slot).ops i = ⟨.resolveSetting, slot,
      match s.cacheGet slot with
      | some v => .returned (some v)
      | none => .begun⟩ := Function.update_self ..
  refine h.of_step hops hne rfl rfl (fun j hj ↦ Function.update_of_ne hj _ _)
    (fun slot _ y hy ↦ .inl hy) ?_
  intro u hu
  -- the promise: the slot is settled, and `u` is what the last write has established
  have hsettled : g.settled s slot = true ∧ (g.last slot).2 = u := by
    simp only [History.promise, Function.update_self] at hu
    split at hu
    · next hs => exact ⟨hs, Option.some.inj hu⟩
    · cases hu
  have hget : ∀ v, s.cacheGet slot = some v → v = u := by
    intro v hv
    obtain ⟨y, hy, hv⟩ := Option.bind_eq_some_iff.mp hv
    split at hv
    · cases hv
    · cases hv
      exact (h.cache slot hsettled.1 y hy).trans hsettled.2
  cases hv : s.cacheGet slot with
  | none =>
      rw [hv] at hself
      refine .of_begun hself ?_ hsettled.2
      rw [← hsettled.1]
      exact settled_of_ne hops (hne slot)
  | some v =>
      rw [hv, hget v hv] at hself
      exact .of_returned hself

/-- A write begins, or is refused. -/
theorem write {call : Call V} (h : Inv c (s, g)) (hi : (s.ops i).pc = .absent) :
    Inv c (s.call c i call slot, g) := by
  refine h.of_step (fun j hj ↦ Function.update_of_ne hj _ _) (h.idle (.inl hi)) rfl rfl
    (fun j _ ↦ rfl) (fun slot _ y hy ↦ .inl hy) ?_
  intro u hu
  exact absurd hi (h.promise i u hu).present

theorem select (h : Inv c (s, g)) (hi : (s.ops i).pc = .begun) :
    Inv c (s.setPc i (.read (s.table (s.ops i).slot)), g) := by
  apply h.of_step (fun j hj ↦ setPc_of_ne hj) (h.idle (.inr (.inl hi))) rfl rfl (fun j _ ↦ rfl)
    (fun slot _ y hy ↦ .inl hy)
  intro u hu
  have hp : Promise c s g i u := h.promise i u hu
  have hself : (s.setPc i (.read (s.table (s.ops i).slot))).ops i =
      ⟨.resolveSetting, (s.ops i).slot, .read (s.table (s.ops i).slot)⟩ := by
    simp only [setPc_self, hp.resolve]
  -- the table has what the last write has established
  exact .of_read hself ((h.table _).trans (hp.begun hi).2)

theorem fill {row : Option (Row V)} (h : Inv c (s, g)) (hi : (s.ops i).pc = .read row)
    (hg : g.settled s (s.ops i).slot = true →
      State.valueOf c (s.ops i).slot.2 row = current c s (s.ops i).slot) :
    Inv c (s.fill c i row, g) := by
  refine h.of_step (fun j hj ↦ setPc_of_ne hj) (h.idle (.inr (.inr ⟨row, hi⟩))) rfl rfl
    (fun j _ ↦ rfl) ?_ ?_
  · intro slot hs y hy
    replace hy : Function.update s.cache (s.ops i).slot _ slot = some y := hy
    by_cases hslot : slot = (s.ops i).slot
    · subst hslot
      rw [Function.update_self] at hy
      cases hy
      exact .inr ((hg hs).trans (h.table _))
    · rw [Function.update_of_ne hslot] at hy
      exact .inl hy
  · intro u hu
    have hp : Promise c s g i u := h.promise i u hu
    have hself : (s.fill c i row).ops i =
        ⟨.resolveSetting, (s.ops i).slot, .returned (some u)⟩ := by
      simp only [State.fill, setPc_self, hp.read row hi, hp.resolve]
    exact .of_returned hself

/-- The end of a write. -/
theorem invalidate (h : Inv c (s, g)) (hcall : (s.ops i).call ≠ .resolveSetting) :
    Inv c (s.invalidate i, g) := by
  have hops : ∀ j, j ≠ i → (s.invalidate i).ops j = s.ops j := fun j hj ↦ setPc_of_ne hj
  have hself : (s.invalidate i).ops i = { s.ops i with pc := .returned none } := setPc_self
  have hmono : ∀ slot, g.settled s slot = true → g.settled (s.invalidate i) slot = true := by
    intro slot hs
    rw [History.settled] at hs ⊢
    cases hw : (g.last slot).1 with
    | none => rfl
    | some j =>
        rw [hw, Option.all_some] at hs
        rw [Option.all_some]
        by_cases hji : j = i
        · subst hji
          rw [hself]
          rfl
        · rw [hops j hji]
          exact hs
  refine ⟨h.table, ?_, ?_, ?_⟩
  · intro slot hs y hy
    replace hy : Function.update s.cache (s.ops i).slot none slot = some y := hy
    by_cases hslot : slot = (s.ops i).slot
    · subst hslot
      rw [Function.update_self] at hy
      cases hy
    · rw [Function.update_of_ne hslot] at hy
      -- another slot has another last write
      have hne : (g.last slot).1 ≠ some i := fun hw ↦ hslot (h.writer slot i hw).1.symm
      rw [settled_of_ne hops hne] at hs
      exact h.cache slot hs y hy
  · intro slot j hj
    obtain ⟨hslot, hj', hpc⟩ := h.writer slot j hj
    by_cases hji : j = i
    · subst hji
      rw [hself]
      exact ⟨hslot, hj', .inr rfl⟩
    · rw [hops j hji]
      exact ⟨hslot, hj', hpc⟩
  · intro j u hu
    have hji : j ≠ i := by
      rintro rfl
      exact hcall (h.promise j u hu).resolve
    exact (h.promise j u hu).of_ne (hops j hji) fun hs hlast _ ↦ ⟨hmono _ hs, hlast⟩

/-- A commit raises. -/
theorem raise {row : Option (Row V)} (h : Inv c (s, g)) (hi : (s.ops i).pc = .read row)
    (hcall : (s.ops i).call ≠ .resolveSetting) : Inv c (s.setPc i .raised, g) := by
  apply h.of_step (fun j hj ↦ setPc_of_ne hj) (h.idle (.inr (.inr ⟨row, hi⟩))) rfl rfl
    (fun j _ ↦ rfl) (fun slot _ y hy ↦ .inl hy)
  intro u hu
  rw [h.promised_eq_none hcall] at hu
  cases hu

/-- A commit is made: the row of the slot becomes `row'`, which has the value `v`. -/
theorem establish {row row' : Option (Row V)} {n : Nat} {v : V} (h : Inv c (s, g))
    (hi : (s.ops i).pc = .read row) (hcall : (s.ops i).call ≠ .resolveSetting)
    (hv : State.valueOf c (s.ops i).slot.2 row' = v) :
    let t : State V :=
      { s with table := Function.update s.table (s.ops i).slot row', nextId := n }
    Inv c (t.setPc i .committed, g.establish s i v) := by
  intro t
  have hops : ∀ j, j ≠ i → (t.setPc i .committed).ops j = s.ops j := fun j hj ↦ setPc_of_ne hj
  have hself : (t.setPc i .committed).ops i = { s.ops i with pc := .committed } := setPc_self
  have hlast : (g.establish s i v).last (s.ops i).slot = (some i, v) := Function.update_self ..
  have hother : ∀ slot, slot ≠ (s.ops i).slot → (g.establish s i v).last slot = g.last slot :=
    fun slot hne ↦ Function.update_of_ne hne _ _
  have hne := h.idle (.inr (.inr ⟨row, hi⟩))
  have hsettled : ∀ slot, slot ≠ (s.ops i).slot →
      (g.establish s i v).settled (t.setPc i .committed) slot = g.settled s slot := by
    intro slot hslot
    rw [← settled_of_ne hops (hne slot), History.settled, History.settled, hother slot hslot]
  refine ⟨?_, ?_, ?_, ?_⟩
  · intro slot
    by_cases hslot : slot = (s.ops i).slot
    · subst hslot
      have hrow : (t.setPc i .committed).table (s.ops i).slot = row' := Function.update_self ..
      rw [current, hrow, hlast]
      exact hv
    · have hrow : (t.setPc i .committed).table slot = s.table slot :=
        Function.update_of_ne hslot _ _
      rw [current, hrow, hother slot hslot]
      exact h.table slot
  · intro slot hs y hy
    by_cases hslot : slot = (s.ops i).slot
    · -- the write has not returned, so its slot is not settled
      subst hslot
      rw [History.settled, hlast, Option.all_some, hself] at hs
      cases hs
    · rw [hsettled slot hslot] at hs
      rw [hother slot hslot]
      exact h.cache slot hs y hy
  · intro slot j hj
    by_cases hslot : slot = (s.ops i).slot
    · subst hslot
      rw [hlast] at hj
      cases hj
      rw [hself]
      exact ⟨rfl, hcall, .inl rfl⟩
    · rw [hother slot hslot] at hj
      have hji : j ≠ i := by
        rintro rfl
        exact hne slot hj
      rw [hops j hji]
      exact h.writer slot j hj
  · intro j u hu
    simp only [History.establish] at hu
    split at hu
    · cases hu
    · next hnot =>
        have hji : j ≠ i := by
          rintro rfl
          exact hcall (h.promise j u hu).resolve
        apply (h.promise j u hu).of_ne (hops j hji)
        intro hs hl hpc
        have hslot : (s.ops j).slot ≠ (s.ops i).slot := by
          intro heq
          refine hnot ⟨heq, ?_⟩
          rw [hpc]
          rfl
        rw [hsettled _ hslot, hother _ hslot]
        exact ⟨hs, hl⟩

end Inv

/-! ## Commits -/

theorem valueOf_flushDelete {now : Option (Row V)} {r : Row V} {key : String}
    (h : ∀ r' ∈ now, r'.id = r.id) :
    State.valueOf c key (State.flushDelete now r) = c.envDefault key := by
  have hnone : State.flushDelete now r = none := by
    cases now with
    | none => rfl
    | some x => simp [State.flushDelete, Option.filter, h x rfl]
  rw [hnone]
  rfl

section Steps

variable [DecidableEq V]

/-- The flush of an upsert gives the row the value, unless the value was taken for already
there. -/
theorem valueOf_flushUpsert {now row row' : Option (Row V)} {v : V} {updatedBy key : String}
    {id : Nat} (h : State.flushUpsert now row v updatedBy id = some row')
    (hsame : ∀ r, row = some r → r.value = v → State.valueOf c key now = v) :
    State.valueOf c key row' = v := by
  cases row with
  | none =>
      cases now with
      | none =>
          cases h
          rfl
      | some x => cases h
  | some r =>
      simp only [State.flushUpsert] at h
      split at h
      · next heq =>
          cases h
          exact hsame r rfl heq.1
      · split at h
        · cases h
        · next x =>
            split at h
            · cases h
              by_cases hv : r.value = v
              · have hx : x.value = v := hsame r rfl hv
                simp [State.valueOf, hv, hx]
              · simp [State.valueOf, hv]
            · cases h

namespace Inv

theorem commit (h : Inv c (s, g)) (hg : InTime c (s, g) (.commit i))
    (hn : step c s (.commit i) = some s') : Inv c (s', record c s (.commit i) g) := by
  have hrecord : record c s (.commit i) g = if (s'.ops i).pc = .committed then
      g.establish s i (established c (s.ops i).slot.2 (s.ops i).call) else g := by
    simp only [record, hn, Option.map_some, Option.some.injEq]
  rw [hrecord]
  simp only [step] at hn
  split at hn
  · next v updatedBy row hcall hpc =>
      have hnot : (s.ops i).call ≠ .resolveSetting := by
        rw [hcall]
        simp
      cases hflush : State.flushUpsert (s.table (s.ops i).slot) row v updatedBy s.nextId with
      | none =>
          simp only [State.commitUpsert, hflush, Option.some.injEq] at hn
          subst hn
          rw [if_neg (by simp [setPc_self])]
          exact h.raise hpc hnot
      | some row' =>
          simp only [State.commitUpsert, hflush, Option.some.injEq] at hn
          subst hn
          rw [if_pos (by rw [setPc_self]), hcall]
          refine h.establish hpc hnot (valueOf_flushUpsert hflush ?_)
          intro r hr hv
          subst hr
          simp only [InTime, inTime, hcall, hpc, Bool.or_eq_true, decide_eq_true_eq] at hg
          rcases hg with (hne | hraise) | hsame
          · exact absurd hv hne
          · have hsome : State.flushUpsert (s.table (s.ops i).slot) (some r) v updatedBy 0 =
                some row' := hflush
            rw [hsome] at hraise
            cases hraise
          · exact hsame
  · next r hcall hpc =>
      have hnot : (s.ops i).call ≠ .resolveSetting := by
        rw [hcall]
        simp
      cases hn
      simp only [InTime, inTime, hcall, hpc] at hg
      rw [State.commitDelete, if_pos (by rw [setPc_self]), hcall]
      refine h.establish hpc hnot (valueOf_flushDelete ?_)
      intro r' hr'
      rw [Option.mem_def.mp hr'] at hg
      simpa using hg
  · cases hn

theorem step {x : State V × History V} (h : Inv c x) (hg : InTime c x a)
    (hn : AppSettings.step c x.1 a = some s') : Inv c (s', record c x.1 a x.2) := by
  obtain ⟨s, g⟩ := x
  cases a with
  | call i call slot =>
      simp only [AppSettings.step, Option.ite_none_right_eq_some, Option.some.injEq] at hn
      obtain ⟨hi, rfl⟩ := hn
      cases call with
      | resolveSetting => exact h.resolve hi
      | upsertSetting | deleteSetting => exact h.write hi
  | select i =>
      simp only [AppSettings.step, Option.ite_none_right_eq_some, Option.some.injEq] at hn
      obtain ⟨hi, rfl⟩ := hn
      exact h.select hi
  | commit i => exact h.commit hg hn
  | resume i =>
      have hwrite : ∀ {call : Call V}, call ≠ .resolveSetting → (s.ops i).call = call →
          (s.ops i).call ≠ .resolveSetting := fun hne heq ↦ heq ▸ hne
      simp only [AppSettings.step] at hn
      split at hn
      · next row hcall hpc =>
          cases hn
          simp only [InTime, inTime, hcall, hpc, Bool.or_eq_true, Bool.not_eq_true',
            decide_eq_true_eq] at hg
          exact h.fill hpc fun hs ↦ hg.resolve_left (by simp [hs])
      · next hcall _ =>
          cases hn
          exact h.invalidate (hwrite (by simp) hcall)
      · next hcall _ =>
          cases hn
          exact h.invalidate (hwrite (by simp) hcall)
      · next hcall _ =>
          cases hn
          exact h.invalidate (hwrite (by simp) hcall)
      · cases hn
  | tick =>
      cases hn
      refine ⟨h.table, h.cache, h.writer, ?_⟩
      intro j u hu
      exact (h.promise j u hu).of_ne rfl fun hs hl _ ↦ ⟨hs, hl⟩

end Inv

end Steps

/-! ## Runs -/

/-- One key of the whitelist. -/
def topK : Config Nat :=
  { whitelisted := fun key ↦ key = "rag_top_k"
    valid := fun _ v ↦ 1 ≤ v && v ≤ 50
    envDefault := fun _ ↦ 5 }

def teamTopK : Slot := ("team-1", "rag_top_k")

/-- An upsert, one call after the other. -/
def upsertRun (i : OpId) (v : Nat) : List (Act Nat) :=
  [.call i (.upsertSetting v "user-1") teamTopK, .select i, .commit i, .resume i]

/-- An override is set and read twice, the second time from the cache; then it is removed. -/
def setAndReset : List (Act Nat) :=
  upsertRun 0 2 ++
    ([.call 1 .resolveSetting teamTopK, .select 1, .resume 1, .call 2 .resolveSetting teamTopK,
      .call 3 .deleteSetting teamTopK, .select 3, .commit 3, .resume 3,
      .call 4 .resolveSetting teamTopK, .select 4, .resume 4] : List (Act Nat))

/-- A reader has its answer before an upsert begins, and stores it after the upsert has
returned. -/
def lateFill : List (Act Nat) :=
  ([.call 0 .resolveSetting teamTopK, .select 0] : List (Act Nat)) ++ upsertRun 1 2 ++
    ([.resume 0, .call 2 .resolveSetting teamTopK] : List (Act Nat))

end Adapta.AppSettings
