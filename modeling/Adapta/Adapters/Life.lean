import Mathlib.Data.List.AList
import Adapta.Lib.System
import Adapta.Lib.UnitOfWork
import Adapta.Adapters.Gate

/-!
# The life of an adapter

Adapter rows are written by the upload handler, by the worker's `process_adapter`, by
the startup sweep and by the delete handler, and are bound to endpoints by two more
handlers.  Here all of them are one transition system over the committed database.

A step is one database round trip or one other await of one party.  Transactions are READ
COMMITTED: a read sees the rows as committed at that moment, and a commit applies its
writes at once.  The row locks of Postgres make the checks of a foreign key and the write
they guard one step as well.  ORM objects are `Lib.Tracked`: a commit writes the columns
the session has changed, and does not look at the others.

## What is abstracted

* Projects and datasets are changed by handlers outside this model: a project keeps its
  base model for good, and a dataset may be anything at any time.
* Ids are numbers; a new adapter gets a number that was never used.
* The queue is the set of enqueued jobs.  An idle worker may take any of them at any time,
  which covers requeues and redeliveries.  A `cancel` ends the run at its await; an
  awaited commit may have been executed.
* Of several passed adapters, which one is the latest is left to the action.
* The texts that format scores are a parameter.
-/

namespace Adapta.Adapters

open Lib

abbrev ProjectId := Nat
abbrev DatasetId := Nat
abbrev AdapterId := Nat
abbrev ReqId := Nat

/-! ## Rows -/

inductive ProjectType where
  | rag
  | finetune
deriving DecidableEq, Repr

structure Project where
  type : ProjectType
  baseModel : String
deriving DecidableEq, Repr

structure Dataset where
  project : ProjectId
  /-- The status is `valid`. -/
  valid : Bool
  task : Option EvalTask
deriving DecidableEq, Repr

inductive AdapterFormat where
  | gguf
  | peft
deriving DecidableEq, Repr

inductive AdapterStatus where
  | uploaded
  | processing
  | passed
  | failed
deriving DecidableEq, Repr

/-- A row of `adapters`. -/
structure Adapter where
  project : ProjectId
  baseModel : String
  format : AdapterFormat
  peftDir : Option String
  ggufPath : Option String
  evalDataset : DatasetId
  status : AdapterStatus
  failureReason : Option String
  evalMetrics : Option Metrics
deriving DecidableEq

/-- The row after a flush; only four columns are ever assigned. -/
def Adapter.flush (o : Tracked Adapter) (cur : Adapter) : Adapter :=
  { cur with
    ggufPath := flushField o.saved.ggufPath o.now.ggufPath cur.ggufPath
    status := flushField o.saved.status o.now.status cur.status
    failureReason := flushField o.saved.failureReason o.now.failureReason cur.failureReason
    evalMetrics := flushField o.saved.evalMetrics o.now.evalMetrics cur.evalMetrics }

/-- A row of `endpoints`. -/
structure Endpoint where
  baseModel : String
  adapterId : Option AdapterId
deriving DecidableEq, Repr

/-! ## Settings and paths -/

structure Config where
  catalog : List CatalogEntry
  thresholds : Thresholds
  adaptersDir : String
  loraGgufFilename : String
  /-- The reason of a failed gate, with its formatted scores. -/
  gateFailed : Metrics → String

/-- `str(Path(dir) / name)`. -/
def joinPath (dir name : String) : String :=
  if name = "" then if dir = "" then "." else dir
  else if dir = "" then name else dir ++ "/" ++ name

/-- `adapter_dir`. -/
def Config.adapterDir (c : Config) (a : AdapterId) : String := joinPath c.adaptersDir (toString a)

/-- What `validate_and_store` puts into the row of an accepted upload. -/
def Config.stored (c : Config) (a : AdapterId) (p : ProjectId) (base : String) (f : AdapterFormat)
    (d : DatasetId) : Adapter :=
  { project := p
    baseModel := base
    format := f
    peftDir :=
      match f with
      | .gguf => none
      | .peft => some (joinPath (c.adapterDir a) "peft")
    ggufPath :=
      match f with
      | .gguf => some (joinPath (c.adapterDir a) "adapter.gguf")
      | .peft => none
    evalDataset := d
    status := .uploaded
    failureReason := none
    evalMetrics := none }

/-! ## The adapter job -/

/-- The await points of `process_adapter`, with its session object.  After the checks,
`base` is the entry's name and `task` the dataset's task. -/
inductive JobPc where
  /-- `db.get(Adapter, adapter_id)`. -/
  | load
  /-- The commit of `processing`. -/
  | startCommit (o : Tracked Adapter)
  /-- `db.get(Dataset, adapter.eval_dataset_id)`. -/
  | dataset (o : Tracked Adapter)
  /-- `convert_peft_to_gguf`. -/
  | convert (o : Tracked Adapter) (base : String) (task : EvalTask)
  /-- The commit of `gguf_path`. -/
  | ggufCommit (o : Tracked Adapter) (base : String) (task : EvalTask)
  /-- `probe_load`. -/
  | probe (o : Tracked Adapter) (base : String) (task : EvalTask)
  /-- `read_eval_rows`, on a thread. -/
  | readRows (o : Tracked Adapter) (base : String) (task : EvalTask)
  /-- `eval_gate.evaluate`. -/
  | score (o : Tracked Adapter) (base : String) (task : EvalTask) (nRows : Nat)
  /-- The last commit: of a verdict, or of `fail`. -/
  | endCommit (o : Tracked Adapter)
deriving DecidableEq

/-- The end of an awaited commit. -/
inductive Commit where
  | ok
  /-- It raised; the server may have executed it. -/
  | error (applied : Bool)
deriving DecidableEq, Repr

/-- An event of the running job. -/
inductive JobEv where
  | loaded
  | commit (r : Commit)
  | datasetRead
  | converted
  | probed
  | rowsRead (nRows : Nat)
  | scored (adapterScore baseScore : Rat)
  /-- The awaited call raises: a `DomainError` with its message, or anything else. -/
  | raised (message : Option String)
  /-- The worker is cancelled; an awaited commit may have been executed. -/
  | cancel (applied : Bool)
deriving DecidableEq

def failUnexpected : String := "Adapter processing failed unexpectedly; see the worker log."

def freeformCannotGate : String := "freeform eval sets cannot gate; use classify or extract"

def evalDatasetGone : String :=
  "The adapter's eval dataset is gone or has no task; upload the adapter again with a valid " ++
    "eval dataset."

def notInCatalog (base : String) : String := "Base model '" ++ base ++ "' is not in the catalog."

/-- `reason[:1000]`. -/
def clip (reason : String) : String := String.ofList (reason.toList.take 1000)

/-- The assignments of `fail`. -/
def failWith (reason : String) (metrics : Option Metrics) (r : Adapter) : Adapter :=
  { r with
    status := .failed
    failureReason := some (clip reason)
    evalMetrics := metrics <|> r.evalMetrics }

/-- An exception inside the `try` block. -/
def JobPc.failed (o : Tracked Adapter) (message : Option String) : JobPc :=
  .endCommit (o.assign (failWith (message.getD failUnexpected) none))

/-- The checks between the read of the dataset and the first slow step. -/
def afterDataset (c : Config) (o : Tracked Adapter) (d : Option Dataset) : JobPc :=
  match resolve c.catalog o.now.baseModel, d.bind Dataset.task with
  | none, _ => .failed o (notInCatalog o.now.baseModel)
  | some _, none => .failed o evalDatasetGone
  | some _, some .freeform => .failed o freeformCannotGate
  | some entry, some task =>
      match o.now.format with
      | .peft => .convert o entry.name task
      | .gguf => .probe o entry.name task

/-- The assignment of a converted adapter's path. -/
def setGguf (c : Config) (r : Adapter) : Adapter :=
  { r with ggufPath := some (joinPath (r.peftDir.getD "") c.loraGgufFilename) }

/-- The assignments of a verdict. -/
def verdict (c : Config) (m : Metrics) (r : Adapter) : Adapter :=
  if m.passed then { r with evalMetrics := some m, status := .passed }
  else failWith (c.gateFailed m) (some m) { r with evalMetrics := some m }

/-! ## The system -/

/-- An API request that has read its rows and has not ended. -/
inductive Req where
  | absent
  /-- `upload_adapter`: the project's base and the dataset have been checked. -/
  | uploading (p : ProjectId) (base : String) (d : DatasetId) (f : AdapterFormat)
  /-- The row is committed, `db.refresh` is awaited. -/
  | refreshing (a : AdapterId)
  /-- `enqueue` is awaited. -/
  | enqueuing (a : AdapterId) (o : Tracked Adapter)
  /-- The commit of a failed enqueue is awaited. -/
  | failing (a : AdapterId) (o : Tracked Adapter)
  /-- `create_endpoint`, with the adapter it has selected. -/
  | creating (p : ProjectId) (base : String) (a : Option AdapterId)
  /-- `promote_adapter`. -/
  | promoting (p : ProjectId) (a : AdapterId)
  /-- `delete_adapter`. -/
  | deleting (a : AdapterId)
  | ended
deriving DecidableEq

/-- A completed call of `eval_gate.evaluate`. -/
structure Eval where
  base : String
  ggufPath : String
  metrics : Metrics
deriving DecidableEq

structure State where
  projects : ProjectId → Option Project
  datasets : DatasetId → Option Dataset
  adapters : AdapterId → Option Adapter
  /-- `endpoints.project_id` is unique. -/
  endpoints : AList fun _ : ProjectId ↦ Endpoint
  /-- All adapter ids below it have been used. -/
  next : AdapterId
  /-- Adapters whose job was enqueued. -/
  jobs : List AdapterId
  reqs : ReqId → Req
  /-- Sweeps that have selected their rows and not committed. -/
  sweeps : List (List (AdapterId × Tracked Adapter))
  /-- The job the worker runs. -/
  worker : Option (AdapterId × JobPc)
  /-- The evaluations made so far, which no code reads. -/
  evals : List Eval

def State.init : State :=
  { projects := fun _ ↦ none, datasets := fun _ ↦ none, adapters := fun _ ↦ none
    endpoints := ∅, next := 0, jobs := [], reqs := fun _ ↦ .absent, sweeps := []
    worker := none, evals := [] }

/-- One atomic step. -/
inductive Act where
  /-- Another handler creates a project. -/
  | project (p : ProjectId) (x : Project)
  /-- Another handler creates, changes or deletes a dataset. -/
  | dataset (d : DatasetId) (x : Option Dataset)
  /-- `upload_adapter` up to its insert. -/
  | uploadRead (i : ReqId) (p : ProjectId) (d : DatasetId) (f : AdapterFormat)
  | uploadInsert (i : ReqId)
  | uploadRefresh (i : ReqId)
  /-- `enqueue` succeeds, or raises. -/
  | enqueue (i : ReqId)
  | enqueueError (i : ReqId) (applied : Bool)
  | uploadFail (i : ReqId)
  /-- `create_endpoint` selects an adapter, then commits. -/
  | createRead (i : ReqId) (p : ProjectId) (a : Option AdapterId)
  | createCommit (i : ReqId)
  /-- `promote_adapter` checks the adapter, then commits. -/
  | promoteRead (i : ReqId) (p : ProjectId) (a : AdapterId)
  | promoteCommit (i : ReqId)
  /-- `delete_adapter` finds no endpoint bound to it, then commits. -/
  | deleteRead (i : ReqId) (p : ProjectId) (a : AdapterId)
  | deleteCommit (i : ReqId)
  /-- A request ends with an error. -/
  | abandon (i : ReqId)
  /-- `sweep_stuck_tasks` selects the stuck adapters, then commits. -/
  | sweepSelect
  | sweepCommit (n : Nat)
  | sweepAbort (n : Nat)
  /-- The worker takes a job. -/
  | take (a : AdapterId)
  | job (e : JobEv)
deriving DecidableEq

def adapterMsg : String :=
  "Processing was interrupted by a restart — upload the adapter again to retry."

def queueUnavailable : String := "The job queue is unavailable; upload the adapter again."

/-- The assignments of the sweep. -/
def sweepFail (r : Adapter) : Adapter :=
  { r with status := .failed, failureReason := some adapterMsg }

/-- The assignments of an upload whose job could not be enqueued. -/
def uploadFail (r : Adapter) : Adapter :=
  { r with status := .failed, failureReason := some queueUnavailable }

abbrev Rows := AdapterId → Option Adapter

/-- The flush of one object.  An `UPDATE` that matches no row raises (`StaleDataError`);
an object without changes is not written. -/
def writeRow (rows : Rows) (a : AdapterId) (o : Tracked Adapter) : Option Rows :=
  if o.now = o.saved then some rows
  else (rows a).map fun cur ↦ Function.update rows a (some (cur.flush o))

/-- The flush of a session with several objects. -/
def writeRows : Rows → List (AdapterId × Tracked Adapter) → Option Rows
  | rows, [] => some rows
  | rows, (a, o) :: l => (writeRow rows a o).bind fun rows' ↦ writeRows rows' l

namespace State

variable (c : Config) (s : State) (i : ReqId)

def setReq (q : Req) : State := { s with reqs := Function.update s.reqs i q }

/-- Some endpoint references the adapter. -/
def bound (a : AdapterId) : Bool := s.endpoints.entries.any fun x ↦ x.2.adapterId = some a

/-- The rows with status `processing`. -/
def stuck : List (AdapterId × Tracked Adapter) :=
  (List.range s.next).filterMap fun a ↦
    (s.adapters a).bind fun r ↦
      if r.status = .processing then some (a, (Tracked.load r).assign sweepFail) else none

end State

/-- The object whose commit a job awaits. -/
def JobPc.flushing : JobPc → Option (Tracked Adapter)
  | .startCommit o | .ggufCommit o _ _ | .endCommit o => some o
  | .load | .dataset _ | .convert _ _ _ | .probe _ _ _ | .readRows _ _ _ | .score _ _ _ _ => none

/-- Where a job goes on after a commit; `none` is its end. -/
def JobPc.afterCommit : JobPc → Option JobPc
  | .startCommit o => some (.dataset o.committed)
  | .ggufCommit o base task => some (.probe o.committed base task)
  | _ => none

/-- Where a job goes on when the awaited call raises: inside the `try` block, to the
failure branch. -/
def JobPc.afterRaise (message : Option String) : JobPc → Option JobPc
  | .dataset o | .convert o _ _ | .ggufCommit o _ _ | .probe o _ _ | .readRows o _ _
  | .score o _ _ _ => some (.failed o message)
  | .load | .startCommit _ | .endCommit _ => none

namespace State

variable (c : Config) (s : State) (i : ReqId)

/-- The job of `a` goes on at `pc`, or ends. -/
def jobAt (a : AdapterId) (pc : Option JobPc) : State := { s with worker := pc.map fun pc ↦ (a, pc) }

/-- The rows after a commit that the server may have executed. -/
def mayWrite (a : AdapterId) (pc : JobPc) (applied : Bool) : Rows :=
  match pc.flushing, applied with
  | some o, true => (writeRow s.adapters a o).getD s.adapters
  | _, _ => s.adapters

/-- One event of the job of `a` at `pc`. -/
def job (a : AdapterId) (pc : JobPc) : JobEv → Option State
  | .loaded =>
      match pc with
      | .load =>
          match s.adapters a with
          | none => some (s.jobAt a none)
          | some r =>
              if r.status = .passed ∨ r.status = .failed then some (s.jobAt a none)
              else
                let o := (Tracked.load r).assign fun r ↦
                  { r with status := .processing, failureReason := none }
                some (s.jobAt a (some (.startCommit o)))
      | _ => none
  | .commit .ok =>
      pc.flushing.map fun o ↦
        match writeRow s.adapters a o with
        | some rows => { s with adapters := rows }.jobAt a pc.afterCommit
        | none => s.jobAt a (pc.afterRaise none)
  | .commit (.error applied) =>
      pc.flushing.map fun _ ↦
        { s with adapters := s.mayWrite a pc applied }.jobAt a (pc.afterRaise none)
  | .datasetRead =>
      match pc with
      | .dataset o => some (s.jobAt a (some (afterDataset c o (s.datasets o.now.evalDataset))))
      | _ => none
  | .converted =>
      match pc with
      | .convert o base task => some (s.jobAt a (some (.ggufCommit (o.assign (setGguf c)) base task)))
      | _ => none
  | .probed =>
      match pc with
      | .probe o base task => some (s.jobAt a (some (.readRows o base task)))
      | _ => none
  | .rowsRead nRows =>
      match pc with
      | .readRows o base task => some (s.jobAt a (some (.score o base task nRows)))
      | _ => none
  | .scored adapterScore baseScore =>
      match pc with
      | .score o base task nRows =>
          let m := evaluate c.thresholds nRows adapterScore baseScore task
          let e := { base := base, ggufPath := o.now.ggufPath.getD "", metrics := m }
          some ({ s with evals := e :: s.evals }.jobAt a (some (.endCommit (o.assign (verdict c m)))))
      | _ => none
  | .raised message =>
      if pc.flushing = none then some (s.jobAt a (pc.afterRaise message)) else none
  | .cancel applied => some ({ s with adapters := s.mayWrite a pc applied }.jobAt a none)

end State

/-- One step of the system. -/
def step (c : Config) (s : State) : Act → Option State
  | .project p x =>
      -- a project's base model is checked against the catalog
      if s.projects p = none ∧ (resolve c.catalog x.baseModel).isSome then
        some { s with projects := Function.update s.projects p (some x) }
      else none
  | .dataset d x => some { s with datasets := Function.update s.datasets d x }
  | .uploadRead i p d f =>
      match s.reqs i, s.projects p, s.datasets d with
      | .absent, some x, some y =>
          if x.type = .finetune ∧ y.project = p ∧ y.valid then
            some (s.setReq i (.uploading p x.baseModel d f))
          else none
      | _, _, _ => none
  | .uploadInsert i =>
      match s.reqs i with
      | .uploading p base d f =>
          match resolve c.catalog base, s.datasets d with
          | some entry, some _ =>
              let row := c.stored s.next p entry.name f d
              some { s.setReq i (.refreshing s.next) with
                adapters := Function.update s.adapters s.next (some row)
                next := s.next + 1 }
          | _, _ => none
      | _ => none
  | .uploadRefresh i =>
      match s.reqs i with
      | .refreshing a => (s.adapters a).map fun r ↦ s.setReq i (.enqueuing a (.load r))
      | _ => none
  | .enqueue i =>
      match s.reqs i with
      | .enqueuing a _ => some { s.setReq i .ended with jobs := a :: s.jobs }
      | _ => none
  | .enqueueError i applied =>
      match s.reqs i with
      | .enqueuing a o =>
          some { s.setReq i (.failing a (o.assign uploadFail)) with
            jobs := if applied then a :: s.jobs else s.jobs }
      | _ => none
  | .uploadFail i =>
      match s.reqs i with
      | .failing a o => (writeRow s.adapters a o).map fun rows ↦
          { s.setReq i .ended with adapters := rows }
      | _ => none
  | .createRead i p a =>
      match s.reqs i, s.projects p, s.endpoints.lookup p with
      | .absent, some x, none =>
          match x.type, a with
          | .rag, none => some (s.setReq i (.creating p x.baseModel none))
          | .finetune, some a =>
              if (s.adapters a).any fun r ↦ r.project = p ∧ r.status = .passed then
                some (s.setReq i (.creating p x.baseModel (some a)))
              else none
          | _, _ => none
      | _, _, _ => none
  | .createCommit i =>
      match s.reqs i with
      | .creating p base a =>
          -- unique project, and the adapter must exist
          if p ∉ s.endpoints ∧ a.all fun a ↦ (s.adapters a).isSome then
            some { s.setReq i .ended with
              endpoints := s.endpoints.insert p ⟨base, a⟩ }
          else none
      | _ => none
  | .promoteRead i p a =>
      match s.reqs i, s.projects p, s.endpoints.lookup p, s.adapters a with
      | .absent, some x, some e, some r =>
          if x.type = .finetune ∧ r.project = p ∧ r.status = .passed ∧ e.adapterId ≠ some a ∧
              r.ggufPath.any (· ≠ "") then
            some (s.setReq i (.promoting p a))
          else none
      | _, _, _, _ => none
  | .promoteCommit i =>
      match s.reqs i with
      | .promoting p a =>
          match s.endpoints.lookup p, s.adapters a with
          | some e, some _ =>
              some { s.setReq i .ended with
                endpoints := s.endpoints.insert p { e with adapterId := some a } }
          | _, _ => none
      | _ => none
  | .deleteRead i p a =>
      match s.reqs i, s.adapters a with
      | .absent, some r =>
          if r.project = p ∧ ¬s.bound a then some (s.setReq i (.deleting a)) else none
      | _, _ => none
  | .deleteCommit i =>
      match s.reqs i with
      | .deleting a =>
          -- the row must still be there, and no endpoint may reference it
          if (s.adapters a).isSome ∧ ¬s.bound a then
            some { s.setReq i .ended with adapters := Function.update s.adapters a none }
          else none
      | _ => none
  | .abandon i => if s.reqs i = .absent then none else some (s.setReq i .ended)
  | .sweepSelect => some { s with sweeps := s.stuck :: s.sweeps }
  | .sweepCommit n =>
      match s.sweeps[n]? with
      | some l => (writeRows s.adapters l).map fun rows ↦
          { s with adapters := rows, sweeps := s.sweeps.eraseIdx n }
      | none => none
  | .sweepAbort n => some { s with sweeps := s.sweeps.eraseIdx n }
  | .take a => if s.worker = none ∧ a ∈ s.jobs then some (s.jobAt a (some .load)) else none
  | .job e => s.worker.bind fun w ↦ s.job c w.1 w.2 e

/-- Adapters, their jobs and their bindings. -/
def system (c : Config) : System State Act := ⟨State.init, step c⟩

/-! ## What a step finds -/

/-- Each event of the job of `a` with where it finds the job, and where it leads. -/
inductive JobStep (c : Config) (s : State) (a : AdapterId) : JobPc → JobEv → State → Prop
  | gone (hr : s.adapters a = none) : JobStep c s a .load .loaded (s.jobAt a none)
  | settled {r : Adapter} (hr : s.adapters a = some r)
      (hst : r.status = .passed ∨ r.status = .failed) :
      JobStep c s a .load .loaded (s.jobAt a none)
  | loaded {r : Adapter} (hr : s.adapters a = some r)
      (hst : ¬(r.status = .passed ∨ r.status = .failed)) :
      JobStep c s a .load .loaded (s.jobAt a (some (.startCommit ((Tracked.load r).assign fun r ↦
        { r with status := .processing, failureReason := none }))))
  | commit {pc : JobPc} {o : Tracked Adapter} {rows : Rows} (ho : pc.flushing = some o)
      (hw : writeRow s.adapters a o = some rows) :
      JobStep c s a pc (.commit .ok) ({ s with adapters := rows }.jobAt a pc.afterCommit)
  | stale {pc : JobPc} {o : Tracked Adapter} (ho : pc.flushing = some o)
      (hw : writeRow s.adapters a o = none) :
      JobStep c s a pc (.commit .ok) (s.jobAt a (pc.afterRaise none))
  | commitError {pc : JobPc} {o : Tracked Adapter} {applied : Bool} (ho : pc.flushing = some o) :
      JobStep c s a pc (.commit (.error applied))
        ({ s with adapters := s.mayWrite a pc applied }.jobAt a (pc.afterRaise none))
  | datasetRead {o : Tracked Adapter} : JobStep c s a (.dataset o) .datasetRead
      (s.jobAt a (some (afterDataset c o (s.datasets o.now.evalDataset))))
  | converted {o : Tracked Adapter} {base : String} {task : EvalTask} :
      JobStep c s a (.convert o base task) .converted
        (s.jobAt a (some (.ggufCommit (o.assign (setGguf c)) base task)))
  | probed {o : Tracked Adapter} {base : String} {task : EvalTask} :
      JobStep c s a (.probe o base task) .probed (s.jobAt a (some (.readRows o base task)))
  | rowsRead {o : Tracked Adapter} {base : String} {task : EvalTask} {n : Nat} :
      JobStep c s a (.readRows o base task) (.rowsRead n)
        (s.jobAt a (some (.score o base task n)))
  | scored {o : Tracked Adapter} {base : String} {task : EvalTask} {n : Nat} {x y : Rat} :
      JobStep c s a (.score o base task n) (.scored x y)
        ({ s with evals := ⟨base, o.now.ggufPath.getD "", evaluate c.thresholds n x y task⟩ ::
          s.evals }.jobAt a
            (some (.endCommit (o.assign (verdict c (evaluate c.thresholds n x y task))))))
  | raised {pc : JobPc} {message : Option String} (ho : pc.flushing = none) :
      JobStep c s a pc (.raised message) (s.jobAt a (pc.afterRaise message))
  | cancel {pc : JobPc} {applied : Bool} : JobStep c s a pc (.cancel applied)
      ({ s with adapters := s.mayWrite a pc applied }.jobAt a none)

theorem JobStep.of_job {c : Config} {s s' : State} {a : AdapterId} {pc : JobPc} {e : JobEv}
    (h : s.job c a pc e = some s') : JobStep c s a pc e s' := by
  cases e with
  | loaded =>
      cases pc <;> try cases h
      simp only [State.job] at h
      cases hr : s.adapters a with
      | none =>
          rw [hr] at h
          cases h
          exact .gone hr
      | some r =>
          rw [hr] at h
          simp only at h
          split at h
          · next hst =>
              cases h
              exact .settled hr hst
          · next hst =>
              cases h
              exact .loaded hr hst
  | commit res =>
      cases res with
      | ok =>
          obtain ⟨o, ho, rfl⟩ := Option.map_eq_some_iff.mp h
          cases hw : writeRow s.adapters a o with
          | none => exact .stale ho hw
          | some rows => exact .commit ho hw
      | error applied =>
          obtain ⟨o, ho, rfl⟩ := Option.map_eq_some_iff.mp h
          exact .commitError ho
  | datasetRead =>
      cases pc <;> cases h
      exact .datasetRead
  | converted =>
      cases pc <;> cases h
      exact .converted
  | probed =>
      cases pc <;> cases h
      exact .probed
  | rowsRead n =>
      cases pc <;> cases h
      exact .rowsRead
  | scored x y =>
      cases pc <;> cases h
      exact .scored
  | raised message =>
      simp only [State.job] at h
      split at h
      · next ho =>
          cases h
          exact .raised ho
      · cases h
  | cancel applied =>
      cases h
      exact .cancel

/-- Each step with what it has found, and where it leads. -/
inductive Step (c : Config) (s : State) : Act → State → Prop
  | project {p : ProjectId} {x : Project} (hp : s.projects p = none)
      (hbase : (resolve c.catalog x.baseModel).isSome) :
      Step c s (.project p x) { s with projects := Function.update s.projects p (some x) }
  | dataset {d : DatasetId} {x : Option Dataset} :
      Step c s (.dataset d x) { s with datasets := Function.update s.datasets d x }
  | uploadRead {i : ReqId} {p : ProjectId} {d : DatasetId} {f : AdapterFormat}
      {x : Project} {y : Dataset}
      (hi : s.reqs i = .absent) (hx : s.projects p = some x) (hy : s.datasets d = some y)
      (hok : x.type = .finetune ∧ y.project = p ∧ y.valid) :
      Step c s (.uploadRead i p d f) (s.setReq i (.uploading p x.baseModel d f))
  | uploadInsert {i : ReqId} {p : ProjectId} {base : String} {d : DatasetId} {f : AdapterFormat}
      {entry : CatalogEntry}
      (hi : s.reqs i = .uploading p base d f) (hentry : resolve c.catalog base = some entry) :
      Step c s (.uploadInsert i) { s.setReq i (.refreshing s.next) with
        adapters := Function.update s.adapters s.next (some (c.stored s.next p entry.name f d))
        next := s.next + 1 }
  | uploadRefresh {i : ReqId} {a : AdapterId} {r : Adapter}
      (hi : s.reqs i = .refreshing a) (hr : s.adapters a = some r) :
      Step c s (.uploadRefresh i) (s.setReq i (.enqueuing a (.load r)))
  | enqueue {i : ReqId} {a : AdapterId} {o : Tracked Adapter} (hi : s.reqs i = .enqueuing a o) :
      Step c s (.enqueue i) { s.setReq i .ended with jobs := a :: s.jobs }
  | enqueueError {i : ReqId} {a : AdapterId} {o : Tracked Adapter} {applied : Bool}
      (hi : s.reqs i = .enqueuing a o) :
      Step c s (.enqueueError i applied) { s.setReq i (.failing a (o.assign uploadFail)) with
        jobs := if applied then a :: s.jobs else s.jobs }
  | uploadFail {i : ReqId} {a : AdapterId} {o : Tracked Adapter} {rows : Rows}
      (hi : s.reqs i = .failing a o) (hw : writeRow s.adapters a o = some rows) :
      Step c s (.uploadFail i) { s.setReq i .ended with adapters := rows }
  | createPlain {i : ReqId} {p : ProjectId} {x : Project}
      (hi : s.reqs i = .absent) (hx : s.projects p = some x) :
      Step c s (.createRead i p none) (s.setReq i (.creating p x.baseModel none))
  | createBound {i : ReqId} {p : ProjectId} {a : AdapterId} {x : Project} {r : Adapter}
      (hi : s.reqs i = .absent) (hx : s.projects p = some x) (hr : s.adapters a = some r)
      (hok : r.project = p ∧ r.status = .passed) :
      Step c s (.createRead i p (some a)) (s.setReq i (.creating p x.baseModel (some a)))
  | createCommit {i : ReqId} {p : ProjectId} {base : String} {b : Option AdapterId}
      (hi : s.reqs i = .creating p base b) (hp : p ∉ s.endpoints)
      (hb : ∀ a, b = some a → ∃ r, s.adapters a = some r) :
      Step c s (.createCommit i) { s.setReq i .ended with
        endpoints := s.endpoints.insert p ⟨base, b⟩ }
  | promoteRead {i : ReqId} {p : ProjectId} {a : AdapterId} {r : Adapter}
      (hi : s.reqs i = .absent) (hr : s.adapters a = some r)
      (hok : r.project = p ∧ r.status = .passed) :
      Step c s (.promoteRead i p a) (s.setReq i (.promoting p a))
  | promoteCommit {i : ReqId} {p : ProjectId} {a : AdapterId} {e : Endpoint} {r : Adapter}
      (hi : s.reqs i = .promoting p a) (he : s.endpoints.lookup p = some e)
      (hr : s.adapters a = some r) :
      Step c s (.promoteCommit i) { s.setReq i .ended with
        endpoints := s.endpoints.insert p { e with adapterId := some a } }
  | deleteRead {i : ReqId} {p : ProjectId} {a : AdapterId} (hi : s.reqs i = .absent) :
      Step c s (.deleteRead i p a) (s.setReq i (.deleting a))
  | deleteCommit {i : ReqId} {a : AdapterId} (hi : s.reqs i = .deleting a) (hb : ¬s.bound a) :
      Step c s (.deleteCommit i) { s.setReq i .ended with
        adapters := Function.update s.adapters a none }
  | abandon {i : ReqId} (hi : s.reqs i ≠ .absent) : Step c s (.abandon i) (s.setReq i .ended)
  | sweepSelect : Step c s .sweepSelect { s with sweeps := s.stuck :: s.sweeps }
  | sweepCommit {n : Nat} {l : List (AdapterId × Tracked Adapter)} {rows : Rows}
      (hl : s.sweeps[n]? = some l) (hw : writeRows s.adapters l = some rows) :
      Step c s (.sweepCommit n) { s with adapters := rows, sweeps := s.sweeps.eraseIdx n }
  | sweepAbort {n : Nat} : Step c s (.sweepAbort n) { s with sweeps := s.sweeps.eraseIdx n }
  | take {a : AdapterId} (hw : s.worker = none) (hj : a ∈ s.jobs) :
      Step c s (.take a) (s.jobAt a (some .load))
  | job {a : AdapterId} {e : JobEv} {pc : JobPc} {s' : State} (hw : s.worker = some (a, pc))
      (hn : JobStep c s a pc e s') : Step c s (.job e) s'

theorem Step.of_step {c : Config} {s s' : State} {x : Act} (h : step c s x = some s') :
    Step c s x s' := by
  cases x with
  | project p x =>
      simp only [step] at h
      split at h
      · next hp =>
          cases h
          exact .project hp.1 hp.2
      · cases h
  | dataset d x =>
      cases h
      exact .dataset
  | uploadRead i p d f =>
      simp only [step] at h
      split at h
      · next x y hi hx hy =>
          split at h
          · next hok =>
              cases h
              exact .uploadRead hi hx hy hok
          · cases h
      · cases h
  | uploadInsert i =>
      simp only [step] at h
      split at h
      · next p base d f hi =>
          split at h
          · next entry _ hentry _ =>
              cases h
              exact .uploadInsert hi hentry
          · cases h
      · cases h
  | uploadRefresh i =>
      simp only [step] at h
      split at h
      · next a hi =>
          obtain ⟨r, hr, rfl⟩ := Option.map_eq_some_iff.mp h
          exact .uploadRefresh hi hr
      · cases h
  | enqueue i =>
      simp only [step] at h
      split at h
      · next a o hi =>
          cases h
          exact .enqueue hi
      · cases h
  | enqueueError i applied =>
      simp only [step] at h
      split at h
      · next a o hi =>
          cases h
          exact .enqueueError hi
      · cases h
  | uploadFail i =>
      simp only [step] at h
      split at h
      · next a o hi =>
          obtain ⟨rows, hw, rfl⟩ := Option.map_eq_some_iff.mp h
          exact .uploadFail hi hw
      · cases h
  | createRead i p b =>
      simp only [step] at h
      split at h
      · next x hi hx _ =>
          split at h
          · cases h
            exact .createPlain hi hx
          · split at h
            · next hr =>
                cases h
                obtain ⟨r, hr, hok⟩ := (Option.any_eq_true _ _).mp hr
                rw [decide_eq_true_eq] at hok
                exact .createBound hi hx hr hok
            · cases h
          · cases h
      · cases h
  | createCommit i =>
      simp only [step] at h
      split at h
      · next p base b hi =>
          split at h
          · next hcond =>
              cases h
              refine .createCommit hi hcond.1 ?_
              rintro a rfl
              exact Option.isSome_iff_exists.mp hcond.2
          · cases h
      · cases h
  | promoteRead i p a =>
      simp only [step] at h
      split at h
      · next x e r hi _ _ hr =>
          split at h
          · next hcond =>
              cases h
              exact .promoteRead hi hr ⟨hcond.2.1, hcond.2.2.1⟩
          · cases h
      · cases h
  | promoteCommit i =>
      simp only [step] at h
      split at h
      · next p a hi =>
          split at h
          · next e r he hr =>
              cases h
              exact .promoteCommit hi he hr
          · cases h
      · cases h
  | deleteRead i p a =>
      simp only [step] at h
      split at h
      · next r hi _ =>
          split at h
          · cases h
            exact .deleteRead hi
          · cases h
      · cases h
  | deleteCommit i =>
      simp only [step] at h
      split at h
      · next a hi =>
          split at h
          · next hcond =>
              cases h
              exact .deleteCommit hi hcond.2
          · cases h
      · cases h
  | abandon i =>
      simp only [step] at h
      split at h
      · cases h
      · next hi =>
          cases h
          exact .abandon hi
  | sweepSelect =>
      cases h
      exact .sweepSelect
  | sweepCommit n =>
      simp only [step] at h
      split at h
      · next l hl =>
          obtain ⟨rows, hw, rfl⟩ := Option.map_eq_some_iff.mp h
          exact .sweepCommit hl hw
      · cases h
  | sweepAbort n =>
      cases h
      exact .sweepAbort
  | take a =>
      simp only [step] at h
      split at h
      · next hw =>
          cases h
          exact .take hw.1 hw.2
      · cases h
  | job e =>
      obtain ⟨⟨a, pc⟩, hw, hn⟩ := Option.bind_eq_some_iff.mp h
      exact .job hw (.of_job hn)

end Adapta.Adapters
