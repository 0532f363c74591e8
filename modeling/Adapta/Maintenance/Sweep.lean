import Adapta.Jobs.Worker
import Adapta.Files.Index

/-!
# The sweep of stuck files

`sweep_stuck_files` of `adapta/services/maintenance.py` fails the files that are `pending`
or `processing` and have no live job.  It runs when the app starts, beside the worker, and
when the worker starts, beside the app.  It selects the rows, asks Redis about each of
them, and then commits, without another look at the rows.

The system is that of `Adapta.Jobs`, with the file rows, the uploads that create them, the
body of the index job in flight, and the sweeps.  Redis is reachable throughout, so the
replies to the worker's commands are all `ok`.

## What is abstracted

* A file's id is also the id of its index job; other jobs get ids of their own.
* While the worker is in its loop the heartbeat key does not expire: the loop sets it every
  30 seconds, for 90 seconds.
* The deletion of a file is one step.
-/

namespace Adapta.Maintenance

open Lib Files
open Jobs (JobId JobMeta JobStatus Kind Payload Redis Task)

/-! ## Sweeps -/

/-- The await points of `sweep_stuck_files`. -/
inductive Sweep where
  /-- The `SELECT`. -/
  | select
  /-- `get_status` of `f`, in `_job_is_live`. -/
  | check (f : FileId) (r : FileRow) (todo : List (FileId × FileRow))
      (swept : List (FileId × Tracked FileRow))
  /-- `worker_alive`, after the status `running`. -/
  | alive (f : FileId) (r : FileRow) (todo : List (FileId × FileRow))
      (swept : List (FileId × Tracked FileRow))
  | commit (swept : List (FileId × Tracked FileRow))
  /-- The `GET` and the `SET` of `update_status(status="failed")`. -/
  | report (f : FileId) (rest : List FileId)
  | reportSet (f : FileId) (raw : Option JobMeta) (rest : List FileId)
deriving DecidableEq

def fileMsg : String := "Indexing was interrupted by a server restart — re-upload the file to retry."

/-- The assignments of the sweep. -/
def sweepFail (r : FileRow) : FileRow :=
  { r with status := .failed, errorMessage := some fileMsg }

namespace Sweep

/-- The loop over the selected rows goes on, or ends. -/
def proceed (todo : List (FileId × FileRow)) (swept : List (FileId × Tracked FileRow)) :
    Option Sweep :=
  match todo, swept with
  | (f, r) :: todo, swept => some (.check f r todo swept)
  | [], [] => none
  | [], x :: swept => some (.commit (x :: swept))

/-- The row `f` is not live: it is assigned `failed`. -/
def fail (f : FileId) (r : FileRow) (todo : List (FileId × FileRow))
    (swept : List (FileId × Tracked FileRow)) : Option Sweep :=
  proceed todo (swept ++ [(f, (Tracked.load r).assign sweepFail)])

/-- The loop that keeps the job records honest goes on, or ends. -/
def reportNext : List FileId → Option Sweep
  | f :: rest => some (.report f rest)
  | [] => none

end Sweep

/-- The flush of the swept rows. -/
def writeFiles : Stores → List (FileId × Tracked FileRow) → Option Stores
  | st, [] => some st
  | st, (f, o) :: l => (st.writeFile f o).bind fun st' ↦ writeFiles st' l

/-- What `_job_is_live` makes of the status it has read. -/
inductive Liveness where
  | live
  | dead
  /-- It depends on the heartbeat. -/
  | ask
deriving DecidableEq, Repr

def liveness (workerStartup : Bool) : Option JobStatus → Liveness
  | some .queued => .live
  | some .running => if workerStartup then .dead else .ask
  | _ => .dead

/-! ## The system -/

structure State where
  jobs : Jobs.State
  stores : Stores
  /-- All ids below it have been used. -/
  nextId : FileId
  /-- Uploads that have committed their row and not enqueued its job. -/
  uploads : List FileId
  /-- The body of the task in flight, if it is an index job. -/
  body : Option (FileId × IndexJob)
  threads : List Thread
  /-- The sweeps of the app, and that of the starting worker. -/
  sweeps : List Sweep
  startup : Option Sweep
  heartbeat : Bool

def State.init : State :=
  { jobs := .init, stores := .empty, nextId := 0, uploads := [], body := none, threads := []
    sweeps := [], startup := none, heartbeat := false }

/-- One atomic step. -/
inductive Act where
  /-- An upload commits its row. -/
  | upload
  /-- Its process dies before it enqueues the job. -/
  | uploadLost (f : FileId)
  | enqueue (f : FileId)
  /-- A job of another kind is enqueued. -/
  | other (k : Kind) (p : Payload)
  /-- `delete_file` commits. -/
  | delete (f : FileId)
  /-- A step of the worker loop and its task. -/
  | jobs (a : Jobs.Act)
  | heartbeatExpires
  /-- An event of the index job. -/
  | index (e : JobEv)
  | thread (n : Nat)
  /-- A sweep of the app starts. -/
  | sweepStart
  /-- The awaited call of a sweep returns; `none` is the worker's. -/
  | sweep (w : Option Nat)
  /-- It raises, or the process dies. -/
  | sweepAbort (w : Option Nat)
deriving DecidableEq

/-- The worker is in its loop. -/
def inLoop : Jobs.Pc → Bool
  | .loopBeat | .popping | .fetching _ | .sleeping | .job _ _ => true
  | .down | .startBeat | .warmUp | .readyBeat | .closing => false

/-- A step of the worker in which Redis answers.  The end of a body that is an index job is
that job's event, and enqueueing and sweeping are steps of others. -/
def clean (s : State) : Jobs.Act → Bool
  | .expire _ | .start | .warm | .wake | .closed | .sigterm | .crash => true
  | .beat .ok => s.jobs.pc ≠ .startBeat ∨ s.startup = none
  | .pop .ok | .popTimeout false | .fetch .ok | .fail .ok | .requeue .ok => true
  | .task .start | .task (.reply .ok) | .task .afterReturn => true
  | .task .bodyReturn | .task (.bodyRaise _) => s.body = none
  | .task (.cancel _) => true
  | _ => false

namespace State

variable (c : Config) (s : State)

/-- The body of a task that has just started it. -/
def bodyOf (pc : Jobs.Pc) : Option (FileId × IndexJob) :=
  match pc with
  | .job t _ =>
      if t.pc = .body ∧ t.job.kind = some .index then
        t.job.target.map fun f ↦ (f, .attempt false .lookup)
      else none
  | _ => none

/-- The worker loop has moved to `j`.  A task that has reached its body starts it; a process
that is gone takes its body, its threads and its sweep with it. -/
def moved (j : Jobs.State) (a : Jobs.Act) : State :=
  let s' := { s with
    jobs := j
    heartbeat := s.heartbeat || a = .beat .ok
    startup := if a = .start then some .select else s.startup }
  if j.pc = .down then { s' with body := none, threads := [], startup := none }
  else if a = .task (.reply .ok) then { s' with body := bodyOf j.pc } else s'

/-- The cancellation of the task reaches its body. -/
def cancelBody (applied : Bool) : State :=
  match s.body with
  | some (f, b) =>
      match b.step c f s.stores false (.cancel applied) with
      | some x =>
          { s with stores := x.1, body := none, threads := (b.thread f).toList ++ s.threads }
      | none => { s with body := none }
  | none => s

/-- One event of the index job in flight. -/
def indexStep (f : FileId) (b : IndexJob) (e : JobEv) : Option State :=
  (b.step c f s.stores false e).bind fun x ↦
    let threads := if e = .deadline true ∨ e = .deadline false then (b.thread f).toList else []
    let s' := { s with stores := x.1, threads := threads ++ s.threads }
    match x.2 with
    | .returned => (Jobs.step s.jobs (.task .bodyReturn)).map fun j ↦
        { s' with jobs := j, body := none }
    | .raised message => (Jobs.step s.jobs (.task (.bodyRaise message))).map fun j ↦
        { s' with jobs := j, body := none }
    | .cancelled => none
    | b' => some { s' with body := some (f, b') }

/-- The rows with status `pending` or `processing`. -/
def stuck : List (FileId × FileRow) :=
  (List.range s.nextId).filterMap fun f ↦
    (s.stores.files f).bind fun r ↦ if r.status.transient then some (f, r) else none

/-- The awaited call of a sweep returns: the state, and where the sweep goes on. -/
def sweepStep (workerStartup : Bool) : Sweep → Option (State × Option Sweep)
  | .select => some (s, Sweep.proceed s.stuck [])
  | .check f r todo swept =>
      match liveness workerStartup (s.jobs.redis.status f) with
      | .live => some (s, Sweep.proceed todo swept)
      | .ask => some (s, some (.alive f r todo swept))
      | .dead => some (s, Sweep.fail f r todo swept)
  | .alive f r todo swept =>
      if s.heartbeat then some (s, Sweep.proceed todo swept)
      else some (s, Sweep.fail f r todo swept)
  | .commit swept =>
      match writeFiles s.stores swept with
      | some st => some ({ s with stores := st }, Sweep.reportNext (swept.map Prod.fst))
      | none => some (s, none)
  | .report f rest => (Jobs.step s.jobs (.sweepGet f)).map fun j ↦
      ({ s with jobs := j }, some (.reportSet f (s.jobs.redis.get f) rest))
  | .reportSet f raw rest => (Jobs.step s.jobs (.sweepSet f raw fileMsg)).map fun j ↦
      ({ s with jobs := j }, Sweep.reportNext rest)

/-- The sweep `w` and whether it is the starting worker's. -/
def sweepAt : Option Nat → Option (Bool × Sweep)
  | none => s.startup.map fun sw ↦ (true, sw)
  | some n => (s.sweeps[n]?).map fun sw ↦ (false, sw)

/-- The sweep `w` goes on, or is over. -/
def setSweep (w : Option Nat) (sw : Option Sweep) : State :=
  match w, sw with
  | none, sw => { s with startup := sw }
  | some n, some sw => { s with sweeps := s.sweeps.set n sw }
  | some n, none => { s with sweeps := s.sweeps.eraseIdx n }

end State

/-- One step of the system. -/
def step (c : Config) (s : State) : Act → Option State
  | .upload => some
      { s with
        stores := s.stores.setFile s.nextId (some ⟨.pending, none⟩)
        nextId := s.nextId + 1
        uploads := s.nextId :: s.uploads }
  | .uploadLost f => some { s with uploads := s.uploads.erase f }
  | .enqueue f =>
      if f ∈ s.uploads then
        (Jobs.step s.jobs (.enqueue f .index ⟨some f, false⟩)).map fun j ↦
          { s with jobs := j, uploads := s.uploads.erase f }
      else none
  | .other k p =>
      if k = .index then none
      else (Jobs.step s.jobs (.enqueue s.nextId k p)).map fun j ↦
        { s with jobs := j, nextId := s.nextId + 1 }
  | .delete f =>
      if s.body.any fun b ↦ b.1 = f ∧ b.2.share then none
      else some { s with stores := s.stores.dropFile f }
  | .jobs a =>
      if clean s a then
        (Jobs.step s.jobs a).map fun j ↦
          match a with
          | .task (.cancel applied) => (s.cancelBody c applied).moved j a
          | _ => s.moved j a
      else none
  | .heartbeatExpires => if inLoop s.jobs.pc then none else some { s with heartbeat := false }
  | .index e =>
      match s.body with
      | some (f, b) => s.indexStep c f b e
      | none => none
  | .thread n =>
      match s.threads[n]? with
      | some t =>
          let x := t.run s.stores
          some { s with stores := x.1, threads := x.2.toList ++ s.threads.eraseIdx n }
      | none => none
  | .sweepStart => some { s with sweeps := s.sweeps ++ [.select] }
  | .sweep w => (s.sweepAt w).bind fun x ↦
      (s.sweepStep x.1 x.2).map fun y ↦ y.1.setSweep w y.2
  | .sweepAbort w => (s.sweepAt w).map fun _ ↦ s.setSweep w none

/-- Files, their jobs and the sweeps. -/
def system (c : Config) : System State Act := ⟨State.init, step c⟩

end Adapta.Maintenance
