import Adapta.Chat.Meter
import Adapta.Keys.Routes
import Adapta.Lib.GroupBy
import Adapta.Lib.KeySort

/-!
# Usage by day

`record_usage` and `usage_by_day` of `adapta/services/usage.py`, with the route that reports them
(`adapta/api/v1/usage.py`), over the tables of projects, endpoints and keys.

A call of `record_usage` reads the date when it starts and executes one statement later, in a
session of its own; any number of calls are under way at once, the tables change between their
steps, and midnight may pass.  The statement adds to the row of its endpoint and day in one step:
`ON CONFLICT DO UPDATE` locks the row and reads its committed version.  It raises if the endpoint is
gone, if a sum does not fit the column, or if the database is out of reach; the call is then lost,
and nothing else is.

The ledger is a history: the calls that were started, those whose counts are in the table, and
those that were lost.
-/

namespace Adapta.Usage

open Lib Api
open Chat (UsageRow Day UsageTable)
open Keys (EndpointId ProjectId UserId)

/-! ## Rows -/

instance : Add UsageRow :=
  ⟨fun a b ↦ ⟨a.promptTokens + b.promptTokens, a.completionTokens + b.completionTokens,
    a.requestCount + b.requestCount⟩⟩

instance : Zero UsageRow := ⟨⟨0, 0, 0⟩⟩

theorem add_def (a b : UsageRow) : a + b = ⟨a.promptTokens + b.promptTokens,
    a.completionTokens + b.completionTokens, a.requestCount + b.requestCount⟩ := rfl

theorem zero_def : (0 : UsageRow) = ⟨0, 0, 0⟩ := rfl

instance : AddCommMonoid UsageRow where
  add_assoc a b c := by simp only [add_def, Nat.add_assoc]
  zero_add a := by simp only [add_def, zero_def, Nat.zero_add]
  add_zero a := by simp only [add_def, zero_def, Nat.add_zero]
  add_comm a b := by simp only [add_def, Nat.add_comm]
  nsmul := nsmulRec

/-- The columns hold integers of 32 bits. -/
def maxCount : Nat := 2147483647

def Fits (r : UsageRow) : Prop :=
  r.promptTokens ≤ maxCount ∧ r.completionTokens ≤ maxCount ∧ r.requestCount ≤ maxCount

instance (r : UsageRow) : Decidable (Fits r) := inferInstanceAs (Decidable (_ ∧ _ ∧ _))

/-- A row of `usage_events`: the unique key, and the counters. -/
abbrev UsageEvent := (EndpointId × Day) × UsageRow

/-- A call of `record_usage` that has read the date. -/
structure Call where
  endpoint : EndpointId
  promptTokens : Int
  completionTokens : Int
  today : Day
deriving DecidableEq, Repr

/-- What a call adds, and to which row; counts below zero are taken for zero. -/
def Call.event (c : Call) : UsageEvent :=
  ((c.endpoint, c.today), ⟨c.promptTokens.toNat, c.completionTokens.toNat, 1⟩)

/-! ## The system -/

structure State where
  db : Keys.Db
  now : Day
  events : List UsageEvent
  /-- The calls that have not executed their statement. -/
  pending : List Call

namespace State

variable (s : State)

def endpointExists (e : EndpointId) : Bool := s.db.endpoints.any (·.id = e)

/-- The table after the statement of `record_usage`, unless it raises. -/
def recordUsage (c : Call) : Option (List UsageEvent) :=
  if s.endpointExists c.endpoint ∧
      Fits ((dictOf s.events c.event.1).getD 0 + c.event.2) then
    some (upsert c.event.1 c.event.2 s.events)
  else none

/-- Other tables; the rows of an endpoint that is gone go with it. -/
def setDb (db : Keys.Db) : State :=
  { s with db, events := s.events.filter fun x ↦ db.endpoints.any (·.id = x.1.1) }

end State

inductive Action where
  /-- A request on projects, endpoints or keys. -/
  | table (op : Keys.Op)
  | midnight
  /-- A call of `record_usage` starts. -/
  | record (endpoint : EndpointId) (promptTokens completionTokens : Int)
  /-- A call executes its statement, and commits. -/
  | commit (n : Nat)
  /-- A call does not reach the database. -/
  | fail (n : Nat)

section

variable (isValid : String → Bool) (allowed : String) (sha256 : String → String)

def step (s : State) : Action → Option State
  | .table op => ((Keys.keyTables isValid allowed sha256).next s.db op).map s.setDb
  | .midnight => some { s with now := s.now + 1 }
  | .record e p c => some { s with pending := s.pending ++ [⟨e, p, c, s.now⟩] }
  | .commit n => s.pending[n]?.map fun c ↦
      { s with pending := s.pending.eraseIdx n, events := (s.recordUsage c).getD s.events }
  | .fail n => s.pending[n]?.map fun _ ↦ { s with pending := s.pending.eraseIdx n }

/-- What became of the calls. -/
structure Ledger where
  begun : List Call
  /-- The calls whose counts are in the table. -/
  recorded : List Call
  /-- The calls that failed, and those of endpoints that were deleted later. -/
  lost : List Call

def Ledger.observe (s : State) (a : Action) (l : Ledger) : Ledger :=
  match a with
  | .table op =>
      let db := (op.run isValid allowed sha256 s.db).toOption.getD s.db
      let live (c : Call) := db.endpoints.any (·.id = c.endpoint)
      { l with
        recorded := l.recorded.filter live
        lost := l.lost ++ l.recorded.filter fun c ↦ !live c }
  | .midnight => l
  | .record e p c => { l with begun := l.begun ++ [⟨e, p, c, s.now⟩] }
  | .commit n =>
      match s.pending[n]? with
      | none => l
      | some c =>
          if (s.recordUsage c).isSome then { l with recorded := l.recorded ++ [c] }
          else { l with lost := l.lost ++ [c] }
  | .fail n => { l with lost := l.lost ++ s.pending[n]?.toList }

def system : System (State × Ledger) Action :=
  (System.mk ⟨.empty, 0, [], []⟩ (step isValid allowed sha256)).ghost ⟨[], [], []⟩
    (Ledger.observe isValid allowed sha256)

end

/-! ## The report -/

structure UsageDay where
  day : Day
  promptTokens : Nat
  completionTokens : Nat
  totalTokens : Nat
  requestCount : Nat
deriving DecidableEq, Repr

structure UsageResponse where
  projectId : ProjectId
  totalPromptTokens : Nat
  totalCompletionTokens : Nat
  totalTokens : Nat
  totalRequests : Nat
  days : List UsageDay
deriving DecidableEq, Repr

def usageDay (d : Day) (r : UsageRow) : UsageDay :=
  { day := d
    promptTokens := r.promptTokens
    completionTokens := r.completionTokens
    totalTokens := r.promptTokens + r.completionTokens
    requestCount := r.requestCount }

/-- `usage_by_day`: the newest first. -/
def usageByDay (s : State) (p : ProjectId) : List UsageDay :=
  match s.db.endpointOf p with
  | none => []
  | some e => ((s.events.filter fun x ↦ x.1.1 = e.id).insertionSort
      fun x y ↦ y.1.2 ≤ x.1.2).map fun x ↦ usageDay x.1.2 x.2

/-- `get_usage`. -/
def getUsage (s : State) (user : UserId) (p : ProjectId) : Except DomainError UsageResponse := do
  let project ← s.db.getProject p
  let _ ← s.db.requireTeamMember user project.team
  let days := usageByDay s p
  pure
    { projectId := p
      totalPromptTokens := (days.map UsageDay.promptTokens).sum
      totalCompletionTokens := (days.map UsageDay.completionTokens).sum
      totalTokens := (days.map UsageDay.totalTokens).sum
      totalRequests := (days.map UsageDay.requestCount).sum
      days }

/-! ## What it reports -/

/-- The counts of some calls. -/
def countsOf (calls : List Call) : UsageRow := (calls.map fun c ↦ c.event.2).sum

/-- The report on some calls of one endpoint. -/
def report (p : ProjectId) (calls : List Call) : UsageResponse :=
  let counts := countsOf calls
  { projectId := p
    totalPromptTokens := counts.promptTokens
    totalCompletionTokens := counts.completionTokens
    totalTokens := counts.promptTokens + counts.completionTokens
    totalRequests := counts.requestCount
    days := ((calls.map Call.today).dedup.insertionSort fun d d' ↦ d' ≤ d).map fun d ↦
      usageDay d (countsOf (calls.filter (·.today = d))) }

/-- The recorded calls of a project's endpoint. -/
def callsOf (s : State) (l : Ledger) (p : ProjectId) : List Call :=
  match s.db.endpointOf p with
  | none => []
  | some e => l.recorded.filter (·.endpoint = e.id)

theorem countsOf_eq (calls : List Call) : countsOf calls =
    ⟨(calls.map (·.promptTokens.toNat)).sum, (calls.map (·.completionTokens.toNat)).sum,
      calls.length⟩ := by
  induction calls with
  | nil => rfl
  | cons c calls ih =>
      have hsum : countsOf (c :: calls) = c.event.2 + countsOf calls := List.sum_cons
      rw [hsum, ih, add_def]
      simp [Call.event, Nat.add_comm]

/-! ## The invariant -/

structure Inv (s : State) (l : Ledger) : Prop where
  /-- The table is the rollup of the recorded calls. -/
  events : s.events = rollup (l.recorded.map Call.event)
  /-- A row belongs to an endpoint. -/
  live : ∀ c ∈ l.recorded, s.endpointExists c.endpoint
  fits : ∀ x ∈ s.events, Fits x.2
  /-- Each call is under way, recorded or lost, and it is so once. -/
  kept : (s.pending ++ l.recorded ++ l.lost).Perm l.begun

variable {isValid : String → Bool} {allowed : String} {sha256 : String → String} {s s' : State}
  {l : Ledger} {c : Call} {t : List UsageEvent}

theorem recordUsage_eq_some : s.recordUsage c = some t ↔ (s.endpointExists c.endpoint ∧
    Fits ((dictOf s.events c.event.1).getD 0 + c.event.2)) ∧
      upsert c.event.1 c.event.2 s.events = t := by
  rw [State.recordUsage, Option.ite_none_right_eq_some, Option.some_inj]

theorem rollup_append_call (calls : List Call) : rollup ((calls ++ [c]).map Call.event) =
    upsert c.event.1 c.event.2 (rollup (calls.map Call.event)) := by
  rw [List.map_append, List.map_singleton, rollup_append_singleton]

/-- The calls of endpoints that are gone go with their rows. -/
theorem filter_rollup_event (live : EndpointId → Bool) (calls : List Call) :
    (rollup (calls.map Call.event)).filter (fun x ↦ live x.1.1) =
      rollup ((calls.filter fun c ↦ live c.endpoint).map Call.event) := by
  rw [filter_rollup (fun k : EndpointId × Day ↦ live k.1), List.filter_map]
  rfl

/-- A call leaves those under way, and is recorded or lost. -/
theorem perm_of_eraseIdx {pending r r' lost lost' : List Call} {n : Nat}
    (hn : pending[n]? = some c) (hc : (r' ++ lost').Perm (c :: (r ++ lost))) :
    (pending.eraseIdx n ++ r' ++ lost').Perm (pending ++ r ++ lost) := by
  obtain ⟨hlt, rfl⟩ := List.getElem?_eq_some_iff.mp hn
  rw [List.append_assoc, List.append_assoc]
  exact ((hc.append_left _).trans List.perm_middle).trans
    ((List.getElem_cons_eraseIdx_perm hlt).append_right _)

namespace Inv

theorem init : Inv ⟨.empty, 0, [], []⟩ ⟨[], [], []⟩ where
  events := rfl
  live c hc := by cases hc
  fits x hx := by cases hx
  kept := List.Perm.nil

theorem table (h : Inv s l) (db : Keys.Db) : Inv (s.setDb db)
    { l with
      recorded := l.recorded.filter fun c ↦ db.endpoints.any (·.id = c.endpoint)
      lost := l.lost ++ l.recorded.filter fun c ↦ !db.endpoints.any (·.id = c.endpoint) } where
  events := by
    rw [State.setDb, h.events]
    exact filter_rollup_event (fun e ↦ db.endpoints.any (·.id = e)) l.recorded
  live c hc := (List.mem_filter.mp hc).2
  fits x hx := h.fits x (List.mem_filter.mp hx).1
  kept := by
    have hsplit := List.filter_append_perm (fun c : Call ↦ db.endpoints.any (·.id = c.endpoint))
      l.recorded
    refine List.Perm.trans ?_ h.kept
    rw [State.setDb, List.append_assoc, List.append_assoc]
    refine List.Perm.append_left s.pending ?_
    refine (List.Perm.append_left _ List.perm_append_comm).trans ?_
    rw [← List.append_assoc]
    exact List.Perm.append_right l.lost hsplit

theorem commit (h : Inv s l) {n : Nat} (hn : s.pending[n]? = some c)
    (ht : s.recordUsage c = some t) :
    Inv { s with pending := s.pending.eraseIdx n, events := t }
      { l with recorded := l.recorded ++ [c] } := by
  obtain ⟨⟨hlive, hfits⟩, rfl⟩ := recordUsage_eq_some.mp ht
  refine ⟨?_, ?_, ?_, ?_⟩
  · rw [rollup_append_call, ← h.events]
  · intro d hd
    rcases List.mem_append.mp hd with hd | hd
    · exact h.live d hd
    · rw [List.mem_singleton.mp hd]
      exact hlive
  · rintro ⟨k, m⟩ hx
    rw [mem_upsert (h.events ▸ nodup_rollup)] at hx
    split at hx
    · rw [hx]
      exact hfits
    · exact h.fits _ hx
  · refine (perm_of_eraseIdx hn ?_).trans h.kept
    rw [List.append_assoc]
    exact List.perm_middle

/-- A call that raises is lost, and only that. -/
theorem lose (h : Inv s l) {n : Nat} (hn : s.pending[n]? = some c) :
    Inv { s with pending := s.pending.eraseIdx n } { l with lost := l.lost ++ [c] } where
  events := h.events
  live := h.live
  fits := h.fits
  kept := by
    refine (perm_of_eraseIdx hn ?_).trans h.kept
    rw [← List.append_assoc]
    exact List.perm_append_singleton c _

theorem step {a : Action} (h : Inv s l) (hn : step isValid allowed sha256 s a = some s') :
    Inv s' (l.observe isValid allowed sha256 s a) := by
  cases a with
  | table op =>
      cases hn
      exact h.table _
  | midnight =>
      cases hn
      exact ⟨h.events, h.live, h.fits, h.kept⟩
  | record e p c =>
      cases hn
      refine ⟨h.events, h.live, h.fits, ?_⟩
      have hmove : ∀ d : Call, ((s.pending ++ [d]) ++ l.recorded ++ l.lost).Perm
          ((s.pending ++ l.recorded ++ l.lost) ++ [d]) := by
        intro d
        simp only [List.append_assoc]
        refine List.Perm.append_left s.pending ?_
        rw [← List.append_assoc l.recorded]
        exact List.perm_append_comm
      exact (hmove _).trans (h.kept.append_right _)
  | commit n =>
      obtain ⟨c, hc, rfl⟩ := Option.map_eq_some_iff.mp hn
      simp only [Ledger.observe, hc]
      cases ht : s.recordUsage c with
      | none => exact h.lose hc
      | some t => exact h.commit hc ht
  | fail n =>
      obtain ⟨c, hc, rfl⟩ := Option.map_eq_some_iff.mp hn
      simp only [Ledger.observe, hc]
      exact h.lose hc

theorem total_event {e : EndpointId} {calls : List Call} (hcalls : ∀ c ∈ calls, c.endpoint = e)
    (d : Day) : totalOf (calls.map Call.event) (e, d) = countsOf (calls.filter (·.today = d)) := by
  have hfilter : calls.filter ((fun x : UsageEvent ↦ decide (x.1 = (e, d))) ∘ Call.event) =
      calls.filter (·.today = d) := by
    refine List.filter_congr fun c hc ↦ decide_eq_decide.mpr ?_
    simp [Call.event, hcalls c hc]
  rw [totalOf, List.filter_map, hfilter, List.map_map]
  rfl

/-- The rows of an endpoint are the days on which it was called, with the counts of each. -/
theorem perm_events (h : Inv s l) (e : EndpointId) :
    (s.events.filter fun x ↦ x.1.1 = e).Perm
      (((l.recorded.filter (·.endpoint = e)).map Call.today).dedup.map fun d ↦
        ((e, d), countsOf ((l.recorded.filter (·.endpoint = e)).filter (·.today = d)))) := by
  rw [h.events, filter_rollup_event fun e' ↦ e' = e]
  have hcalls : ∀ c ∈ l.recorded.filter (·.endpoint = e), c.endpoint = e :=
    fun c hc ↦ of_decide_eq_true (List.mem_filter.mp hc).2
  generalize l.recorded.filter (·.endpoint = e) = calls at hcalls
  have hinj : (fun d ↦ ((e, d), countsOf (calls.filter (·.today = d)))).Injective :=
    fun d d' h ↦ congrArg (fun x : UsageEvent ↦ x.1.2) h
  refine (List.perm_ext_iff_of_nodup (nodup_rollup.of_map _)
    ((List.nodup_dedup _).map hinj)).mpr ?_
  rintro ⟨⟨e', d⟩, m⟩
  have hkey : (e', d) ∈ (calls.map Call.event).map Prod.fst ↔ e' = e ∧ d ∈ calls.map Call.today := by
    rw [List.map_map, List.mem_map, List.mem_map]
    constructor
    · rintro ⟨c, hc, hk⟩
      obtain ⟨rfl, rfl⟩ := Prod.mk.inj hk
      exact ⟨hcalls c hc, c, hc, rfl⟩
    · rintro ⟨rfl, c, hc, rfl⟩
      exact ⟨c, hc, Prod.ext (hcalls c hc) rfl⟩
  rw [mem_rollup, hkey]
  constructor
  · rintro ⟨⟨rfl, hd⟩, rfl⟩
    exact List.mem_map.mpr ⟨d, List.mem_dedup.mpr hd, by rw [total_event hcalls]⟩
  · intro hx
    obtain ⟨d', hd, hx⟩ := List.mem_map.mp hx
    obtain ⟨hk, rfl⟩ := Prod.mk.inj hx
    obtain ⟨rfl, rfl⟩ := Prod.mk.inj hk
    exact ⟨⟨rfl, List.mem_dedup.mp hd⟩, (total_event hcalls _).symm⟩

theorem usageByDay_eq (h : Inv s l) (p : ProjectId) :
    usageByDay s p = (report p (callsOf s l p)).days := by
  rw [usageByDay, callsOf]
  cases s.db.endpointOf p with
  | none => rfl
  | some e =>
      change _ = (report p (l.recorded.filter fun c ↦ c.endpoint = e.id)).days
      have hperm := h.perm_events e.id
      generalize (l.recorded.filter fun c ↦ c.endpoint = e.id) = calls at hperm
      generalize hday : (fun d ↦ ((e.id, d), countsOf (calls.filter (·.today = d)))) = row at hperm
      have hrow : ∀ d, (row d).1.2 = d := fun d ↦ by rw [← hday]
      -- both lists are in the order of their days, and no day is there twice
      have hsorted : ((s.events.filter fun x ↦ x.1.1 = e.id).insertionSort
          fun x y ↦ y.1.2 ≤ x.1.2) =
          ((calls.map Call.today).dedup.insertionSort fun d d' ↦ d' ≤ d).map row := by
        have hlist := pairwise_sort (fun x : UsageEvent ↦ OrderDual.toDual x.1.2)
          (s.events.filter fun x ↦ x.1.1 = e.id)
        have hdays : (((calls.map Call.today).dedup.insertionSort fun d d' ↦ d' ≤ d).map
            row).Pairwise fun x y ↦ OrderDual.toDual x.1.2 ≤ OrderDual.toDual y.1.2 := by
          refine (pairwise_sort OrderDual.toDual (calls.map Call.today).dedup).map row ?_
          intro d d' hd
          rw [hrow, hrow]
          exact hd
        refine eq_of_perm_of_pairwise_key ?_ hlist hdays ?_
        · intro x hx y hy hxy
          have hmem : ∀ z ∈ (s.events.filter fun x ↦ x.1.1 = e.id).insertionSort
              (fun x y ↦ y.1.2 ≤ x.1.2), z = row z.1.2 := by
            intro z hz
            rw [List.mem_insertionSort, hperm.mem_iff] at hz
            obtain ⟨d, -, rfl⟩ := List.mem_map.mp hz
            rw [hrow]
          rw [hmem x hx, hmem y hy, OrderDual.toDual_inj.mp hxy]
        · exact ((List.perm_insertionSort _ _).trans hperm).trans
            ((List.perm_insertionSort _ _).map row).symm
      change List.map (fun x : UsageEvent ↦ usageDay x.1.2 x.2) _ = _
      rw [hsorted, List.map_map, report, ← hday]
      rfl

/-- The sum of a counter over the days of a project. -/
theorem sum_usageByDay (h : Inv s l) (p : ProjectId) (f : UsageRow →+ Nat) {g : UsageDay → Nat}
    (hg : ∀ d r, g (usageDay d r) = f r) :
    ((usageByDay s p).map g).sum = f (countsOf (callsOf s l p)) := by
  rw [usageByDay, callsOf]
  cases s.db.endpointOf p with
  | none => exact (map_zero f).symm
  | some e =>
      let rows := s.events.filter fun x ↦ x.1.1 = e.id
      let calls := l.recorded.filter fun c ↦ c.endpoint = e.id
      have hsum : (rows.map Prod.snd).sum = countsOf calls := by
        have hrows := filter_rollup_event (fun e' ↦ e' = e.id) l.recorded
        rw [← h.events] at hrows
        change (List.map Prod.snd (List.filter (fun x ↦ decide (x.1.1 = e.id)) s.events)).sum = _
        rw [hrows, sum_rollup, List.map_map]
        rfl
      calc
        ((((rows.insertionSort fun x y ↦ y.1.2 ≤ x.1.2).map
              fun x ↦ usageDay x.1.2 x.2)).map g).sum =
            ((rows.insertionSort fun x y ↦ y.1.2 ≤ x.1.2).map fun x ↦ f x.2).sum := by
          rw [List.map_map]
          exact congrArg List.sum (List.map_congr_left fun x _ ↦ hg x.1.2 x.2)
        _ = (rows.map fun x ↦ f x.2).sum := ((List.perm_insertionSort _ rows).map _).sum_eq
        _ = f (rows.map Prod.snd).sum := by
          rw [map_list_sum, List.map_map]
          rfl
        _ = f (countsOf calls) := by rw [hsum]

end Inv

/-! ## Runs -/

theorem inv_of_reachable {x : State × Ledger} (h : (system isValid allowed sha256).Reachable x) :
    Inv x.1 x.2 := by
  refine h.invariant (P := fun x ↦ Inv x.1 x.2) Inv.init fun x a x' hx _ hn ↦ ?_
  obtain ⟨s', hs', rfl⟩ := Option.map_eq_some_iff.mp hn
  exact hx.step hs'

def promptCount : UsageRow →+ Nat := ⟨⟨UsageRow.promptTokens, rfl⟩, fun _ _ ↦ rfl⟩

def completionCount : UsageRow →+ Nat := ⟨⟨UsageRow.completionTokens, rfl⟩, fun _ _ ↦ rfl⟩

def requests : UsageRow →+ Nat := ⟨⟨UsageRow.requestCount, rfl⟩, fun _ _ ↦ rfl⟩

/-- **The report is exact.**  In any interleaving of calls, requests and midnights, a member of the
team is told the counts of the calls that are recorded for the project's endpoint, day by day from
the newest, and their sums. -/
theorem getUsage_eq_report {x : State × Ledger}
    (h : (system isValid allowed sha256).Reachable x) (user : UserId) (p : ProjectId) :
    getUsage x.1 user p = (do
      let project ← x.1.db.getProject p
      let _ ← x.1.db.requireTeamMember user project.team
      pure (report p (callsOf x.1 x.2 p))) := by
  have hinv := inv_of_reachable h
  have hprompt := hinv.sum_usageByDay p promptCount (g := UsageDay.promptTokens) fun _ _ ↦ rfl
  have hcompletion := hinv.sum_usageByDay p completionCount (g := UsageDay.completionTokens)
    fun _ _ ↦ rfl
  have htotal := hinv.sum_usageByDay p (promptCount + completionCount) (g := UsageDay.totalTokens)
    fun _ _ ↦ rfl
  have hrequests := hinv.sum_usageByDay p requests (g := UsageDay.requestCount) fun _ _ ↦ rfl
  simp only [getUsage, hprompt, hcompletion, htotal, hrequests]
  simp only [hinv.usageByDay_eq p]
  rfl

/-- A project whose endpoint is called three times, the third time after midnight; the first call
does not reach the database, and the third is the second to be recorded. -/
def usageRun : List Action :=
  [.table (.other [] (fun _ ↦ 1) fun _ _ ↦ some .admin),
    .table (.createProject "u" ⟨"3f2a-9c", "t", "Help Desk", none, .rag, "qwen2.5-3b-instruct"⟩),
    .table (.createEndpoint "u" "3f2a-9c" "e"),
    .record "e" 10 5, .record "e" 7 (-1), .midnight, .record "e" 1 2, .commit 1, .commit 1,
    .fail 0]

theorem usageRun_reaches : ∃ x, (system (fun _ ↦ true) "" id).Reachable x ∧
    (x.1.db.projects, x.1.db.endpoints, x.1.db.role "u" "t", x.2.recorded) =
      ([⟨"3f2a-9c", "t", "Help Desk", none, .rag, "qwen2.5-3b-instruct"⟩],
        [⟨"e", "3f2a-9c", "help-desk-3f2a9c", .active, none, "qwen2.5-3b-instruct"⟩],
        some .admin, [⟨"e", 7, -1, 0⟩, ⟨"e", 1, 2, 1⟩]) :=
  System.Reach.of_exec (l := usageRun) (by decide)

theorem getUsage_usageRun : ∃ x, (system (fun _ ↦ true) "" id).Reachable x ∧
    getUsage x.1 "u" "3f2a-9c" = .ok
      { projectId := "3f2a-9c"
        totalPromptTokens := 8
        totalCompletionTokens := 2
        totalTokens := 10
        totalRequests := 2
        days := [⟨1, 1, 2, 3, 1⟩, ⟨0, 7, 0, 7, 1⟩] } := by
  obtain ⟨x, hreach, hx⟩ := usageRun_reaches
  simp only [Prod.mk.injEq] at hx
  obtain ⟨hprojects, hendpoints, hrole, hrecorded⟩ := hx
  have hproject : x.1.db.getProject "3f2a-9c" =
      .ok ⟨"3f2a-9c", "t", "Help Desk", none, .rag, "qwen2.5-3b-instruct"⟩ := by
    rw [Keys.Db.getProject, hprojects]
    decide
  have hmember : x.1.db.requireTeamMember "u" "t" = .ok .admin := by
    rw [Keys.Db.requireTeamMember, hrole]
  have hcalls : callsOf x.1 x.2 "3f2a-9c" = [⟨"e", 7, -1, 0⟩, ⟨"e", 1, 2, 1⟩] := by
    rw [callsOf, Keys.Db.endpointOf, hendpoints, hrecorded]
    decide
  refine ⟨x, hreach, ?_⟩
  rw [getUsage_eq_report hreach, hproject, hcalls]
  simp only [bind, Except.bind, hmember]
  rfl

/-! ## The table as a function -/

/-- The rows by their key. -/
def tableOf (events : List UsageEvent) : UsageTable := fun e d ↦ dictOf events (e, d)

def Call.metered (c : Call) : Chat.Metered :=
  ⟨c.endpoint, c.promptTokens.toNat, c.completionTokens.toNat⟩

/-- The statement does what the metering of a stream expects. -/
theorem tableOf_upsert {events : List UsageEvent} (h : (events.map Prod.fst).Nodup) (c : Call) :
    tableOf (upsert c.event.1 c.event.2 events) =
      Chat.recordUsage c.today (tableOf events) c.metered := by
  funext e d
  have hkey : (e, d) = c.event.1 ↔ e = c.metered.endpoint ∧ d = c.today := Prod.mk_inj
  rw [tableOf, dictOf_upsert h, Chat.recordUsage]
  by_cases hk : (e, d) = c.event.1
  · rw [if_pos hk, if_pos (hkey.mp hk), tableOf, hk]
    cases dictOf events c.event.1 with
    | none => rfl
    | some r => rfl
  · rw [if_neg hk, if_neg (hkey.not.mp hk), tableOf]

/-- **No update is lost, and none is made twice.**  In any interleaving the table is what the
recorded calls make of it one after the other, whatever the order in which they were started; the
calls under way, those recorded and those lost are the calls that were started, and no counter
outgrows its column. -/
theorem tableOf_recorded {x : State × Ledger}
    (h : (system isValid allowed sha256).Reachable x) :
    tableOf x.1.events =
        x.2.recorded.foldl (fun t c ↦ Chat.recordUsage c.today t c.metered) (fun _ _ ↦ none) ∧
      (x.1.pending ++ x.2.recorded ++ x.2.lost).Perm x.2.begun ∧
      ∀ r ∈ x.1.events, Fits r.2 := by
  have hinv := inv_of_reachable h
  refine ⟨?_, hinv.kept, hinv.fits⟩
  rw [hinv.events]
  generalize x.2.recorded = calls
  induction calls using List.reverseRecOn with
  | nil => rfl
  | append_singleton calls c ih =>
      rw [rollup_append_call, tableOf_upsert nodup_rollup, ih, List.foldl_append]
      rfl

theorem tableOf_usageRun : ∃ x, (system (fun _ ↦ true) "" id).Reachable x ∧
    tableOf x.1.events "e" 0 = some ⟨7, 0, 1⟩ := by
  obtain ⟨x, hreach, hx⟩ := usageRun_reaches
  simp only [Prod.mk.injEq] at hx
  have htable := (tableOf_recorded hreach).1
  refine ⟨x, hreach, ?_⟩
  rw [htable, hx.2.2.2]
  decide

end Adapta.Usage
