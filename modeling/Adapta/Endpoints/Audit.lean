import Mathlib.Data.List.Sort
import Adapta.Adapters.Safety

/-!
# The audit trail of endpoints

`create_endpoint` and `promote_adapter` of `adapta/api/v1/endpoints.py` bind an adapter to the
endpoint of a project and record an `AdapterEvent`, which `endpoint_history` lists by its
`created_at`.  That column is the start of the transaction, and the rows a promotion decides with
are read without locks.

The system is the one of `Adapta.Adapters.Life`, with the two handlers in smaller steps: each query
is one, and a commit writes the endpoint and its event at once.  The events of an adapter that is
deleted keep their place and lose its id.  What the handlers do besides (the status of the project,
the eviction of the variant that was served) is left out.
-/

namespace Adapta.Endpoints

open Lib
open Adapters (ProjectId AdapterId ReqId)

/-! ## Rows and requests -/

inductive AdapterAction where
  | promote
  | rollback
deriving DecidableEq, Repr

/-- A row of `adapter_events`; a project has one endpoint, which is named by the project. -/
structure AdapterEvent where
  endpoint : ProjectId
  adapterId : Option AdapterId
  action : AdapterAction
  createdAt : Nat
deriving DecidableEq, Repr

/-- The event after a deletion of the adapter: `ON DELETE SET NULL`. -/
def AdapterEvent.forget (a : AdapterId) (e : AdapterEvent) : AdapterEvent :=
  if e.adapterId = some a then { e with adapterId := none } else e

/-- The awaits of the two handlers. -/
inductive ReqPc where
  | absent
  /-- `create_endpoint`: the query for an endpoint of the project. -/
  | createEndpoint (p : ProjectId)
  /-- The query for the latest adapter that has passed, or for the indexed chunks. -/
  | createAdapter (p : ProjectId) (x : Adapters.Project)
  | createCommit (p : ProjectId) (base : String) (a : Option AdapterId)
  /-- `promote_adapter`: the query for the endpoint. -/
  | promoteEndpoint (p : ProjectId) (a : AdapterId)
  /-- The query for the adapter; the endpoint had the binding `bound`. -/
  | promoteAdapter (p : ProjectId) (a : AdapterId) (bound : Option AdapterId)
  /-- The query `served_before`. -/
  | promoteServed (p : ProjectId) (a : AdapterId)
  | promoteCommit (p : ProjectId) (a : AdapterId) (action : AdapterAction)
  | ended
deriving DecidableEq, Repr

structure Request where
  /-- When the transaction started. -/
  start : Nat
  pc : ReqPc
deriving DecidableEq, Repr

structure State where
  base : Adapters.State
  /-- The clock of the database. -/
  now : Nat
  /-- The rows of `adapter_events`, the last insert first. -/
  events : List AdapterEvent
  reqs : ReqId → Request

inductive Act where
  | tick
  | create (i : ReqId) (p : ProjectId)
  | promote (i : ReqId) (p : ProjectId) (a : AdapterId)
  /-- The awaited query returns. -/
  | read (i : ReqId)
  /-- The query of `create_endpoint` for an adapter returns it. -/
  | select (i : ReqId) (a : Option AdapterId)
  | commit (i : ReqId)
  /-- The request raises. -/
  | raise (i : ReqId)
  /-- Any other step of the adapters. -/
  | base (a : Adapters.Act)
deriving DecidableEq

namespace State

def init : State :=
  { base := .init, now := 0, events := [], reqs := fun _ ↦ ⟨0, .absent⟩ }

variable (c : Adapters.Config) (s : State) (i : ReqId) (p : ProjectId) (a : AdapterId)

/-- The adapter the endpoint of the project is bound to. -/
def bound : Option AdapterId := (s.base.endpoints.lookup p).bind fun e ↦ e.adapterId

/-- The events of the endpoint. -/
def rows : List AdapterEvent := s.events.filter fun e ↦ e.endpoint = p

/-- The events of the endpoint that name the adapter. -/
def served : List AdapterEvent := (s.rows p).filter fun e ↦ e.adapterId = some a

/-- `endpoint_history`, newest first. -/
def endpointHistory : List AdapterEvent :=
  (s.rows p).insertionSort fun e e' ↦ e'.createdAt ≤ e.createdAt

def setPc (pc : ReqPc) : State :=
  { s with reqs := Function.update s.reqs i { s.reqs i with pc := pc } }

/-- The session begins its transaction. -/
def begin (pc : ReqPc) : Option State :=
  if (s.reqs i).pc = .absent then some { s with reqs := Function.update s.reqs i ⟨s.now, pc⟩ }
  else none

/-- Where a request goes on when its query has returned. -/
def afterRead : ReqPc → Option ReqPc
  | .createEndpoint p =>
      match s.base.projects p, s.base.endpoints.lookup p with
      | some x, none => some (.createAdapter p x)
      | _, _ => some .ended
  | .promoteEndpoint p a =>
      match s.base.projects p, s.base.endpoints.lookup p with
      | some x, some e =>
          some (if x.type = .finetune then .promoteAdapter p a e.adapterId else .ended)
      | _, _ => some .ended
  | .promoteAdapter p a bound =>
      match s.base.adapters a with
      | some r =>
          some (if r.project = p ∧ r.status = .passed ∧ bound ≠ some a ∧ r.ggufPath.any (· ≠ "")
            then .promoteServed p a else .ended)
      | none => some .ended
  | .promoteServed p a =>
      some (.promoteCommit p a (if s.served p a ≠ [] then .rollback else .promote))
  | _ => none

/-- The endpoint is bound and the event inserted. -/
def bind (e : Adapters.Endpoint) (a : AdapterId) (action : AdapterAction) : State :=
  { s with
    base := { s.base with endpoints := s.base.endpoints.insert p { e with adapterId := some a } }
    events := ⟨p, some a, action, (s.reqs i).start⟩ :: s.events }.setPc i .ended

/-- What a commit writes; it raises when a constraint is violated. -/
def commit : ReqPc → Option State
  | .createCommit p base a =>
      -- `project_id` is unique, and the adapter must exist
      if p ∉ s.base.endpoints ∧ a.all fun a ↦ (s.base.adapters a).isSome then
        match a with
        | some a => some (s.bind i p ⟨base, none⟩ a .promote)
        | none =>
            let endpoints := s.base.endpoints.insert p ⟨base, none⟩
            some ({ s with base := { s.base with endpoints := endpoints } }.setPc i .ended)
      else none
  | .promoteCommit p a action =>
      match s.base.endpoints.lookup p, s.base.adapters a with
      | some e, some _ => some (s.bind i p e a action)
      | _, _ => none
  | _ => none

/-- The adapter is deleted. -/
def forget : State :=
  { s with events := s.events.map (·.forget a) }

end State

/-- The step belongs to one of the two handlers, which are modelled here. -/
def isEndpointAct : Adapters.Act → Bool
  | .createRead _ _ _ | .createCommit _ | .promoteRead _ _ _ | .promoteCommit _ => true
  | _ => false

/-- The adapter that a step deletes. -/
def deletedBy (b : Adapters.State) : Adapters.Act → Option AdapterId
  | .deleteCommit i =>
      match b.reqs i with
      | .deleting a => some a
      | _ => none
  | _ => none

def deletes (s : State) : Act → Option AdapterId
  | .base a => deletedBy s.base a
  | _ => none

/-- One step of the system. -/
def step (c : Adapters.Config) (s : State) : Act → Option State
  | .tick => some { s with now := s.now + 1 }
  | .create i p => s.begin i (.createEndpoint p)
  | .promote i p a => s.begin i (.promoteEndpoint p a)
  | .read i => (s.afterRead (s.reqs i).pc).map (s.setPc i)
  | .select i a =>
      match (s.reqs i).pc with
      | .createAdapter p x =>
          match x.type, a with
          | .rag, none => some (s.setPc i (.createCommit p x.baseModel none))
          | .finetune, some a =>
              if (s.base.adapters a).any fun r ↦ r.project = p ∧ r.status = .passed then
                some (s.setPc i (.createCommit p x.baseModel (some a)))
              else none
          | _, _ => none
      | _ => none
  | .commit i => s.commit i (s.reqs i).pc
  | .raise i => if (s.reqs i).pc = .absent then none else some (s.setPc i .ended)
  | .base a =>
      if isEndpointAct a then none
      else (Adapters.step c s.base a).map fun b ↦
        let s' := { s with base := b }
        match deletedBy s.base a with
        | some a => s'.forget a
        | none => s'

/-! ## Statement -/

/-- What is remembered of a run. -/
structure Log where
  /-- What the endpoint of a project was bound to, one entry for each change, newest first. -/
  changes : ProjectId → List (Option AdapterId)
  /-- How many events named the adapter when a promotion asked. -/
  asked : ReqId → Nat
  deleted : List AdapterId

def Log.init : Log := { changes := fun _ ↦ [], asked := fun _ ↦ 0, deleted := [] }

/-- A step changes a binding, asks for earlier events, or deletes an adapter. -/
def Log.observe (c : Adapters.Config) (s : State) (x : Act) (log : Log) : Log :=
  { changes := fun p ↦
      match step c s x with
      | some s' =>
          if s'.bound p = s.bound p then log.changes p else s'.bound p :: log.changes p
      | none => log.changes p
    asked :=
      match x with
      | .read i =>
          match (s.reqs i).pc with
          | .promoteServed p a => Function.update log.asked i (s.served p a).length
          | _ => log.asked
      | _ => log.asked
    deleted := (deletes s x).toList ++ log.deleted }

/-- Adapters, endpoints and their events. -/
def system (c : Adapters.Config) : System (State × Log) Act :=
  System.ghost ⟨.init, step c⟩ .init (Log.observe c)

/-- The condition: when a promotion commits, the endpoint is not bound to the adapter, no other
commit has bound it since the promotion asked for earlier events, and every event of the endpoint
is of a transaction that started earlier. -/
def apart (x : State × Log) : Act → Bool
  | .commit i =>
      match (x.1.reqs i).pc with
      | .promoteCommit p a _ =>
          x.1.bound p ≠ some a && (x.1.served p a).length = x.2.asked i &&
            (x.1.rows p).all fun e ↦ e.createdAt < (x.1.reqs i).start
      | _ => true
  | _ => true

def Apart (x : State × Log) (a : Act) : Prop := apart x a = true

instance (x : State × Log) (a : Act) : Decidable (Apart x a) :=
  inferInstanceAs (Decidable (apart x a = true))

/-- The event names the binding, or its adapter was deleted. -/
def Names (deleted : List AdapterId) (e : AdapterEvent) (b : Option AdapterId) : Prop :=
  e.adapterId = b ∨ e.adapterId = none ∧ ∃ a ∈ deleted, b = some a

/-- The history of the endpoint of `p`: the newest event names the bound adapter, there is one
event for each change of the binding, and exactly the first event of an adapter is a promotion. -/
structure Audited (s : State) (log : Log) (p : ProjectId) : Prop where
  newest : (s.endpointHistory p).head?.map AdapterEvent.adapterId = (s.bound p).map some
  changes : List.Forall₂ (Names log.deleted) (s.endpointHistory p) (log.changes p)
  actions : ∀ newer e older, s.endpointHistory p = newer ++ e :: older → ∀ a,
    e.adapterId = some a → (e.action = .promote ↔ ∀ e' ∈ older, e'.adapterId ≠ some a)

/-! ## Lists of events -/

section Lists

variable {a : AdapterId} {e : AdapterEvent} {l : List AdapterEvent}

/-- Exactly the oldest event of an adapter is a promotion. -/
def FirstPromotes : List AdapterEvent → Prop
  | [] => True
  | e :: older =>
      (∀ a, e.adapterId = some a → (e.action = .promote ↔ ∀ e' ∈ older, e'.adapterId ≠ some a)) ∧
        FirstPromotes older

theorem FirstPromotes.of_append {newer older : List AdapterEvent}
    (h : FirstPromotes (newer ++ older)) : FirstPromotes older := by
  induction newer with
  | nil => exact h
  | cons e newer ih => exact ih h.2

theorem AdapterEvent.forget_of_ne (h : e.adapterId ≠ some a) : e.forget a = e := if_neg h

theorem AdapterEvent.forget_adapterId : (e.forget a).adapterId =
    if e.adapterId = some a then none else e.adapterId := by
  rw [forget]
  split
  · rfl
  · rfl

@[simp] theorem AdapterEvent.forget_endpoint : (e.forget a).endpoint = e.endpoint := by
  rw [forget]
  split
  · rfl
  · rfl

@[simp] theorem AdapterEvent.forget_createdAt : (e.forget a).createdAt = e.createdAt := by
  rw [forget]
  split
  · rfl
  · rfl

@[simp] theorem AdapterEvent.forget_action : (e.forget a).action = e.action := by
  rw [forget]
  split
  · rfl
  · rfl

/-- An event names another adapter after the deletion if it did before. -/
theorem AdapterEvent.forget_eq_some {b : AdapterId} :
    (e.forget a).adapterId = some b ↔ e.adapterId = some b ∧ b ≠ a := by
  rw [forget_adapterId]
  constructor
  · intro h
    split at h
    · cases h
    · next hne =>
        refine ⟨h, ?_⟩
        rintro rfl
        exact hne h
  · rintro ⟨h, hne⟩
    rw [if_neg, h]
    rw [h]
    rintro ⟨⟩
    exact hne rfl

theorem FirstPromotes.forget (h : FirstPromotes l) : FirstPromotes (l.map (·.forget a)) := by
  induction l with
  | nil => trivial
  | cons e older ih =>
      refine ⟨?_, ih h.2⟩
      intro b hb
      obtain ⟨hb, hne⟩ := AdapterEvent.forget_eq_some.mp hb
      rw [AdapterEvent.forget_action, h.1 b hb]
      constructor
      · intro hall e' he'
        obtain ⟨e₀, he₀, rfl⟩ := List.mem_map.mp he'
        intro hb'
        exact hall e₀ he₀ (AdapterEvent.forget_eq_some.mp hb').1
      · intro hall e₀ he₀ hb'
        exact hall _ (List.mem_map_of_mem he₀) (AdapterEvent.forget_eq_some.mpr ⟨hb', hne⟩)

/-- A list of events, newest first, that tells how a binding came about. -/
structure Trail (l : List AdapterEvent) (bound : Option AdapterId)
    (changes : List (Option AdapterId)) (deleted : List AdapterId) : Prop where
  sorted : l.Pairwise fun e e' ↦ e'.createdAt < e.createdAt
  newest : l.head?.map AdapterEvent.adapterId = bound.map some
  changes : List.Forall₂ (Names deleted) l changes
  actions : FirstPromotes l

variable {b : Option AdapterId} {changes : List (Option AdapterId)} {deleted : List AdapterId}

namespace Trail

protected theorem nil : Trail [] none [] deleted := ⟨.nil, rfl, .nil, trivial⟩

/-- A binding is none only before the first event. -/
theorem eq_nil (h : Trail l none changes deleted) : l = [] ∧ changes = [] := by
  cases l with
  | nil =>
      cases h.changes
      exact ⟨rfl, rfl⟩
  | cons e l => cases h.newest

theorem cons (h : Trail l b changes deleted) (htime : ∀ e' ∈ l, e'.createdAt < e.createdAt)
    (ha : e.adapterId = some a)
    (haction : e.action = .promote ↔ ∀ e' ∈ l, e'.adapterId ≠ some a) :
    Trail (e :: l) (some a) (some a :: changes) deleted where
  sorted := List.pairwise_cons.mpr ⟨htime, h.sorted⟩
  newest := by
    show some e.adapterId = some (some a)
    rw [ha]
  changes := .cons (.inl ha) h.changes
  actions := by
    refine ⟨?_, h.actions⟩
    intro a' ha'
    obtain rfl : a = a' := Option.some.inj (ha.symm.trans ha')
    exact haction

theorem forget (h : Trail l b changes deleted) (hb : b ≠ some a) :
    Trail (l.map (·.forget a)) b changes (a :: deleted) where
  sorted := by
    rw [List.pairwise_map]
    simpa using h.sorted
  newest := by
    -- the newest event names the binding, so it is not the one that loses its adapter
    rw [← h.newest]
    cases l with
    | nil => rfl
    | cons e l =>
        have he : some e.adapterId = b.map some := h.newest
        have hne : e.adapterId ≠ some a := by
          intro hea
          cases b with
          | none => cases he
          | some b =>
              rw [hea] at he
              exact hb (Option.some.inj he).symm
        show some (e.forget a).adapterId = some e.adapterId
        rw [AdapterEvent.forget_of_ne hne]
  changes := by
    rw [List.forall₂_map_left_iff]
    apply h.changes.imp
    intro e b' hnames
    rcases hnames with heq | ⟨hnone, a', ha', rfl⟩
    · by_cases hea : e.adapterId = some a
      · refine .inr ⟨?_, a, List.mem_cons_self, heq.symm.trans hea⟩
        rw [AdapterEvent.forget_adapterId, if_pos hea]
      · exact .inl (by rw [AdapterEvent.forget_of_ne hea, heq])
    · refine .inr ⟨?_, a', List.mem_cons_of_mem _ ha', rfl⟩
      rw [AdapterEvent.forget_of_ne (by rw [hnone]; simp), hnone]
  actions := h.actions.forget

end Trail

end Lists

/-! ## Steps -/

variable {c : Adapters.Config} {s s' : State} {x : Act} {i : ReqId} {p q : ProjectId}
  {a : AdapterId} {action : AdapterAction} {e : Adapters.Endpoint} {log : Log}

theorem base_endpoints {b b' : Adapters.State} {y : Adapters.Act}
    (h : Adapters.step c b y = some b') (hy : isEndpointAct y = false) :
    b'.endpoints = b.endpoints := by
  cases Adapters.Step.of_step h with
  | createPlain | createBound | createCommit | promoteRead | promoteCommit => cases hy
  | job hw hn =>
      cases hn with
      | _ => rfl
  | _ => rfl

theorem State.bound_bind :
    (s.bind i p e a action).bound q = if q = p then some a else s.bound q := by
  by_cases hq : q = p
  · subst hq
    simp [bound, bind, setPc]
  · simp [bound, bind, setPc, hq]

theorem State.rows_bind : (s.bind i p e a action).rows q =
    if q = p then ⟨p, some a, action, (s.reqs i).start⟩ :: s.rows p else s.rows q := by
  by_cases hq : q = p
  · subst hq
    simp [rows, bind, setPc]
  · simp [rows, bind, setPc, hq, Ne.symm hq]

theorem State.rows_forget : (s.forget a).rows p = (s.rows p).map (·.forget a) := by
  simp only [rows, forget, List.filter_map]
  congr 2
  funext e
  simp

/-- What a step does to bindings and events. -/
inductive Effect (s : State) : Act → State → Prop
  | quiet {x : Act} {s' : State} (hbound : ∀ p, s'.bound p = s.bound p)
      (hevents : s'.events = s.events) (hx : deletes s x = none) : Effect s x s'
  | create {i : ReqId} {p : ProjectId} {base : String} {a : AdapterId}
      (hpc : (s.reqs i).pc = .createCommit p base (some a)) (hp : p ∉ s.base.endpoints) :
      Effect s (.commit i) (s.bind i p ⟨base, none⟩ a .promote)
  | promote {i : ReqId} {p : ProjectId} {a : AdapterId} {action : AdapterAction}
      {e : Adapters.Endpoint} (hpc : (s.reqs i).pc = .promoteCommit p a action)
      (he : s.base.endpoints.lookup p = some e) :
      Effect s (.commit i) (s.bind i p e a action)
  | delete {y : Adapters.Act} {b : Adapters.State} {a : AdapterId}
      (hy : deletedBy s.base y = some a) (hfree : ∀ p, s.bound p ≠ some a)
      (hb : b.endpoints = s.base.endpoints) :
      Effect s (.base y) ({ s with base := b }.forget a)

theorem not_bound_of_deletedBy {b b' : Adapters.State} {y : Adapters.Act}
    (h : Adapters.step c b y = some b') (hy : deletedBy b y = some a) : ¬b.bound a := by
  cases Adapters.Step.of_step h with
  | deleteCommit hi hb =>
      simp only [deletedBy, hi, Option.some.injEq] at hy
      exact hy ▸ hb
  | _ => cases hy

theorem Effect.of_commit {pc : ReqPc} (hpc : (s.reqs i).pc = pc) (h : s.commit i pc = some s') :
    Effect s (.commit i) s' := by
  cases pc with
  | createCommit p base a =>
      simp only [State.commit] at h
      split at h
      · next hok =>
          cases a with
          | some a =>
              cases h
              exact .create hpc hok.1
          | none =>
              cases h
              refine .quiet ?_ rfl rfl
              intro q
              by_cases hq : q = p
              · subst hq
                have hnone : s.base.endpoints.lookup q = none :=
                  AList.lookup_eq_none.mpr hok.1
                simp [State.bound, State.setPc, hnone]
              · simp [State.bound, State.setPc, hq]
      · cases h
  | promoteCommit p a action =>
      simp only [State.commit] at h
      split at h
      · next e r he hr =>
          cases h
          exact .promote hpc he
      · cases h
  | absent | createEndpoint | createAdapter | promoteEndpoint | promoteAdapter | promoteServed
  | ended => cases h

theorem Effect.of_step (h : step c s x = some s') : Effect s x s' := by
  cases x with
  | tick =>
      cases h
      exact .quiet (fun _ ↦ rfl) rfl rfl
  | create i p | promote i p a =>
      simp only [step, State.begin, Option.ite_none_right_eq_some, Option.some.injEq] at h
      obtain ⟨-, rfl⟩ := h
      exact .quiet (fun _ ↦ rfl) rfl rfl
  | read i =>
      obtain ⟨pc, -, rfl⟩ := Option.map_eq_some_iff.mp h
      exact .quiet (fun _ ↦ rfl) rfl rfl
  | select i a =>
      simp only [step] at h
      split at h
      · split at h
        · cases h
          exact .quiet (fun _ ↦ rfl) rfl rfl
        · split at h
          · cases h
            exact .quiet (fun _ ↦ rfl) rfl rfl
          · cases h
        · cases h
      · cases h
  | commit i => exact .of_commit rfl h
  | raise i =>
      simp only [step, Option.ite_none_left_eq_some, Option.some.injEq] at h
      obtain ⟨-, rfl⟩ := h
      exact .quiet (fun _ ↦ rfl) rfl rfl
  | base y =>
      simp only [step] at h
      split at h
      · cases h
      · next hy =>
          obtain ⟨b, hb, rfl⟩ := Option.map_eq_some_iff.mp h
          have hend := base_endpoints hb (by simpa using hy)
          cases hdel : deletedBy s.base y with
          | some a =>
              refine .delete hdel ?_ hend
              intro p hp
              obtain ⟨e, he, hea⟩ := Option.bind_eq_some_iff.mp hp
              exact not_bound_of_deletedBy hb hdel (Adapters.bound_of_lookup he hea)
          | none =>
              refine .quiet ?_ rfl hdel
              intro p
              simp only [State.bound, hend]

/-! ## The invariant -/

theorem Log.observe_changes (h : step c s x = some s') : (log.observe c s x).changes p =
    if s'.bound p = s.bound p then log.changes p else s'.bound p :: log.changes p := by
  simp only [observe, h]

/-- The answer to a promotion's question, as long as it may be used. -/
def Asked (s : State) (log : Log) : Prop :=
  ∀ i p a action, (s.reqs i).pc = .promoteCommit p a action →
    (action = .promote ↔ log.asked i = 0)

structure Inv (s : State) (log : Log) : Prop where
  trail : ∀ p, Trail (s.rows p) (s.bound p) (log.changes p) log.deleted
  asked : Asked s log

namespace Inv

protected theorem init : Inv .init .init := by
  constructor
  · intro p
    exact Trail.nil
  · intro i p a action h
    cases h

/-- A new event of the endpoint of `p`, newer than all others. -/
theorem bind_trail (h : Inv s log) (hn : step c s x = some (s.bind i p e a action))
    (hx : deletes s x = none) (hbound : s.bound p ≠ some a)
    (htime : ∀ e' ∈ s.rows p, e'.createdAt < (s.reqs i).start)
    (haction : action = .promote ↔ ∀ e' ∈ s.rows p, e'.adapterId ≠ some a) (q : ProjectId) :
    Trail ((s.bind i p e a action).rows q) ((s.bind i p e a action).bound q)
      ((log.observe c s x).changes q) (log.observe c s x).deleted := by
  have hdel : (log.observe c s x).deleted = log.deleted := by
    simp only [Log.observe, hx, Option.toList_none, List.nil_append]
  rw [Log.observe_changes hn, State.rows_bind, State.bound_bind, hdel]
  by_cases hq : q = p
  · subst hq
    rw [if_pos rfl, if_pos rfl, if_neg (Ne.symm hbound)]
    exact (h.trail q).cons htime rfl haction
  · rw [if_neg hq, if_neg hq, if_pos rfl]
    exact h.trail q

theorem step_trail (h : Inv s log) (hg : Apart (s, log) x) (hn : step c s x = some s')
    (p : ProjectId) :
    Trail (s'.rows p) (s'.bound p) ((log.observe c s x).changes p) (log.observe c s x).deleted := by
  cases Effect.of_step hn with
  | quiet hbound hevents hx =>
      have hrows : s'.rows p = s.rows p := by simp only [State.rows, hevents]
      rw [Log.observe_changes hn, hbound, if_pos rfl, hrows]
      simpa only [Log.observe, hx, Option.toList_none, List.nil_append] using h.trail p
  | @create i q base a hpc hq =>
      -- without an endpoint there is no event
      have hnone : s.bound q = none := by
        rw [State.bound, AList.lookup_eq_none.mpr hq]
        rfl
      have htrail := h.trail q
      rw [hnone] at htrail
      obtain ⟨hrows, -⟩ := htrail.eq_nil
      refine h.bind_trail hn rfl ?_ ?_ ?_ p
      · rw [hnone]
        simp
      · simp [hrows]
      · simp [hrows]
  | @promote i q a action e hpc he =>
      simp only [Apart, apart, hpc, Bool.and_eq_true, decide_eq_true_eq, List.all_eq_true] at hg
      obtain ⟨⟨hbound, hasked⟩, htime⟩ := hg
      refine h.bind_trail hn rfl hbound htime ?_ p
      rw [h.asked i q a action hpc, ← hasked, List.length_eq_zero_iff, State.served,
        List.filter_eq_nil_iff]
      simp
  | @delete y b a hy hfree hb =>
      have hbound : ∀ q, (State.forget { s with base := b } a).bound q = s.bound q := by
        intro q
        simp only [State.bound, State.forget, hb]
      have htrail := (h.trail p).forget (hfree p)
      rw [Log.observe_changes hn, hbound, if_pos rfl, State.rows_forget]
      simp only [Log.observe, deletes, hy, Option.toList_some, List.singleton_append]
      exact htrail

end Inv

/-- A request goes on at a place where no answer is kept. -/
theorem Asked.setPc (h : Asked s log) {pc : ReqPc}
    (hpc : ∀ p a action, pc ≠ .promoteCommit p a action) : Asked (s.setPc i pc) log := by
  intro j p a action hj
  by_cases hji : j = i
  · subst hji
    simp only [State.setPc, Function.update_self] at hj
    exact absurd hj (hpc p a action)
  · simp only [State.setPc, Function.update_of_ne hji] at hj
    exact h j p a action hj

theorem Asked.begin (h : Asked s log) {pc : ReqPc} (hn : s.begin i pc = some s')
    (hpc : ∀ p a action, pc ≠ .promoteCommit p a action) : Asked s' log := by
  simp only [State.begin, Option.ite_none_right_eq_some, Option.some.injEq] at hn
  obtain ⟨-, rfl⟩ := hn
  intro j p a action hj
  by_cases hji : j = i
  · subst hji
    simp only [Function.update_self] at hj
    exact absurd hj (hpc p a action)
  · simp only [Function.update_of_ne hji] at hj
    exact h j p a action hj

/-- The question is answered by the events at that moment. -/
theorem State.afterRead_served {pc : ReqPc}
    (h : s.afterRead pc = some (.promoteCommit p a action)) :
    pc = .promoteServed p a ∧ (action = .promote ↔ s.served p a = []) := by
  cases pc with
  | promoteServed p' a' =>
      simp only [afterRead, Option.some.injEq, ReqPc.promoteCommit.injEq] at h
      obtain ⟨rfl, rfl, rfl⟩ := h
      refine ⟨rfl, ?_⟩
      by_cases hs : s.served p' a' = []
      · simp [hs]
      · simp [hs]
  | createEndpoint q =>
      simp only [afterRead] at h
      split at h
      · cases h
      · cases h
  | promoteEndpoint q b =>
      simp only [afterRead] at h
      split at h
      · split at h
        · cases h
        · cases h
      · cases h
  | promoteAdapter q b bound =>
      simp only [afterRead] at h
      split at h
      · split at h
        · cases h
        · cases h
      · cases h
  | absent | createAdapter | createCommit | promoteCommit | ended => cases h

theorem State.reqs_commit {pc : ReqPc} (h : s.commit i pc = some s') :
    s'.reqs = (s.setPc i .ended).reqs := by
  cases pc with
  | createCommit p base a =>
      simp only [commit] at h
      split at h
      · cases a with
        | some a =>
            cases h
            rfl
        | none =>
            cases h
            rfl
      · cases h
  | promoteCommit p a action =>
      simp only [commit] at h
      split at h
      · cases h
        rfl
      · cases h
  | absent | createEndpoint | createAdapter | promoteEndpoint | promoteAdapter | promoteServed
  | ended => cases h

theorem Asked.step (h : Asked s log) (hn : step c s x = some s') :
    Asked s' (log.observe c s x) := by
  cases x with
  | tick =>
      cases hn
      exact h
  | create i p => exact h.begin hn (by simp)
  | promote i p a => exact h.begin hn (by simp)
  | read i =>
      obtain ⟨pc, hpc, rfl⟩ := Option.map_eq_some_iff.mp hn
      intro j p a action hj
      by_cases hji : j = i
      · subst hji
        simp only [State.setPc, Function.update_self] at hj
        subst hj
        obtain ⟨hserved, haction⟩ := State.afterRead_served hpc
        simp only [Log.observe, hserved, Function.update_self, List.length_eq_zero_iff]
        exact haction
      · simp only [State.setPc, Function.update_of_ne hji] at hj
        have hsame : (log.observe c s (.read i)).asked j = log.asked j := by
          cases hi : (s.reqs i).pc with
          | promoteServed p' a' =>
              simp only [Log.observe, hi]
              exact Function.update_of_ne hji _ _
          | _ => simp only [Log.observe, hi]
        rw [hsame]
        exact h j p a action hj
  | select i a =>
      simp only [Endpoints.step] at hn
      split at hn
      · split at hn
        · cases hn
          exact h.setPc (by simp)
        · split at hn
          · cases hn
            exact h.setPc (by simp)
          · cases hn
        · cases hn
      · cases hn
  | commit i =>
      have hended : Asked (s.setPc i .ended) log := h.setPc (by simp)
      intro j p a action hj
      rw [State.reqs_commit hn] at hj
      exact hended j p a action hj
  | raise i =>
      simp only [Endpoints.step, Option.ite_none_left_eq_some, Option.some.injEq] at hn
      obtain ⟨-, rfl⟩ := hn
      exact h.setPc (by simp)
  | base y =>
      simp only [Endpoints.step] at hn
      split at hn
      · cases hn
      · obtain ⟨b, hb, rfl⟩ := Option.map_eq_some_iff.mp hn
        split
        · exact h
        · exact h

theorem Inv.step (h : Inv s log) (hg : Apart (s, log) x) (hn : step c s x = some s') :
    Inv s' (log.observe c s x) :=
  ⟨h.step_trail hg hn, h.asked.step hn⟩

/-- In the order of `endpoint_history` the events are as they were inserted. -/
theorem Inv.endpointHistory (h : Inv s log) (p : ProjectId) : s.endpointHistory p = s.rows p := by
  refine List.Pairwise.insertionSort_eq ((h.trail p).sorted.imp fun hlt ↦ ?_)
  exact Nat.le_of_lt hlt

/-- **The audit trail names what is served.**  In every run in which a promotion commits only to
an endpoint not bound to the adapter, with no binding to the adapter since it asked for one, and
from a transaction that started after those of the endpoint's events, in every state the newest
event names the adapter that is bound, there is one event for each change of the binding, and of
the events of an adapter exactly the first is a promotion. -/
theorem audit_trail (c : Adapters.Config) (y : State × Log) (h : (system c).Reach Apart y)
    (p : ProjectId) : Audited y.1 y.2 p := by
  have hinv : Inv y.1 y.2 := by
    apply h.invariant (P := fun y ↦ Inv y.1 y.2) Inv.init
    intro y x y' hy hg hn
    obtain ⟨t, ht, rfl⟩ := Option.map_eq_some_iff.mp hn
    exact hy.step hg ht
  have hrows := hinv.endpointHistory p
  refine ⟨?_, ?_, ?_⟩
  · rw [hrows]
    exact (hinv.trail p).newest
  · rw [hrows]
    exact (hinv.trail p).changes
  · intro newer e older hsplit a ha
    have hfirst := (hinv.trail p).actions
    rw [← hrows, hsplit] at hfirst
    exact hfirst.of_append.1 a ha

/-! ## Runs -/

/-- The adapter `a` is uploaded to project `0` and passes the gate. -/
def passRun (a : AdapterId) : List Act :=
  ([.uploadRead a 0 0 .gguf, .uploadInsert a, .uploadRefresh a, .enqueue a, .take a, .job .loaded,
    .job (.commit .ok), .job .datasetRead, .job .probed, .job (.rowsRead 20),
    .job (.scored (19 / 20) (1 / 2)), .job (.commit .ok)] : List Adapters.Act).map .base

/-- Three adapters have passed, and the endpoint is created with the first. -/
def createRun : List Act :=
  ([.base (.project 0 ⟨.finetune, "tiny"⟩), .base (.dataset 0 (some ⟨0, true, some .classify⟩))] :
      List Act) ++ passRun 0 ++ passRun 1 ++ passRun 2 ++
    ([.create 0 0, .read 0, .select 0 (some 0), .commit 0] : List Act)

/-- A promotion, one query after the other. -/
def promoteRun (i : ReqId) (a : AdapterId) : List Act :=
  [.tick, .promote i 0 a, .read i, .read i, .read i, .commit i]

/-- A promotion, the rollback from it, and the deletion of the adapter that was promoted. -/
def rollbackRun : List Act :=
  createRun ++ promoteRun 1 1 ++ promoteRun 2 0 ++
    ([.base (.deleteRead 3 0 1), .base (.deleteCommit 3)] : List Act)

/-- `audit_trail` at an endpoint with three events, one of which has lost its adapter. -/
theorem audit_trail_rollbackRun : ∃ y, (system Adapters.oneBase).Reach Apart y ∧
    y.1.bound 0 = some 0 ∧
    y.1.endpointHistory 0 =
      [⟨0, some 0, .rollback, 2⟩, ⟨0, none, .promote, 1⟩, ⟨0, some 0, .promote, 0⟩] ∧
    y.2.changes 0 = [some 0, some 1, some 0] ∧ Audited y.1 y.2 0 := by
  obtain ⟨y, hy, hr⟩ := System.Reach.of_exec (S := system Adapters.oneBase) (g := Apart)
    (l := rollbackRun) (f := fun y ↦ (y.1.bound 0, y.1.endpointHistory 0, y.2.changes 0))
    (b := (some 0, [⟨0, some 0, .rollback, 2⟩, ⟨0, none, .promote, 1⟩, ⟨0, some 0, .promote, 0⟩],
      [some 0, some 1, some 0])) (by with_unfolding_all decide)
  simp only [Prod.mk.injEq] at hr
  exact ⟨y, hy, hr.1, hr.2.1, hr.2.2, audit_trail Adapters.oneBase y hy 0⟩

/-- The transaction of a promotion starts before that of another, and commits after it. -/
def overtakenRun : List Act :=
  createRun ++ ([.tick, .promote 1 0 1, .read 1, .read 1, .read 1] : List Act) ++
    promoteRun 2 2 ++ ([.commit 1] : List Act)

/-- The endpoint serves the adapter `1`, and the newest event names `2`. -/
theorem newest_of_overtakenRun : ∃ y, (system Adapters.oneBase).Reachable y ∧
    y.1.bound 0 = some 1 ∧
    y.1.endpointHistory 0 =
      [⟨0, some 2, .promote, 2⟩, ⟨0, some 1, .promote, 1⟩, ⟨0, some 0, .promote, 0⟩] := by
  obtain ⟨y, hy, hr⟩ := System.Reach.of_exec (S := system Adapters.oneBase) (g := fun _ _ ↦ True)
    (l := overtakenRun) (f := fun y ↦ (y.1.bound 0, y.1.endpointHistory 0))
    (b := (some 1, [⟨0, some 2, .promote, 2⟩, ⟨0, some 1, .promote, 1⟩, ⟨0, some 0, .promote, 0⟩]))
    (by with_unfolding_all decide)
  simp only [Prod.mk.injEq] at hr
  exact ⟨y, hy, hr⟩

end Adapta.Endpoints
