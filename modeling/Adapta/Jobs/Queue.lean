import Mathlib.Logic.Function.Basic

/-!
# The Redis job queue

`adapta/services/jobs.py` keeps a job in two places: its metadata, a JSON object
under the key `adapta:job:<id>`, and its id, in the list `adapta:job_queue` until a
worker pops it.  This module models that data and the effect of each Redis command
`JobQueue` issues.  Calls that issue several commands (`dequeue`, `requeue`,
`update_status`) are not atomic, and are taken apart in `Adapta.Jobs.Worker`; what is
pure in them, the merge of an update into the metadata, is `updateMeta` here.

Job ids are numbers, and the timestamps of the metadata are dropped: nothing here
reads them.  Of a key's expiry only its presence is kept, since there is one expiry
time, `JOB_RESULT_TTL_SECONDS`.
-/

namespace Adapta.Jobs

abbrev JobId := Nat

inductive JobStatus where
  | queued
  | running
  | succeeded
  | failed
  | cancelled
deriving DecidableEq, Repr

/-- `TERMINAL_JOB_STATUSES`. -/
def JobStatus.terminal : JobStatus → Bool
  | .succeeded | .failed | .cancelled => true
  | .queued | .running => false

/-- The `kind` of a job: a key of `HANDLERS`, or any other text. -/
inductive Kind where
  | adapter
  | index
  | ragEval
  | extract
  | other (name : String)
deriving DecidableEq, Repr

/-- The payload keys the handlers read. -/
structure Payload where
  id : Option JobId
  allPages : Bool
deriving DecidableEq, Repr

/-- The metadata object of a job. -/
structure JobMeta where
  jobId : JobId
  kind : Option Kind
  status : JobStatus
  progress : Option Rat
  payload : Option Payload
  logs : Option String
  error : Option String
deriving DecidableEq

/-- A metadata key: its value, and whether it carries an expiry. -/
structure Entry where
  job : JobMeta
  ttl : Bool
deriving DecidableEq

/-- The keyword arguments of `update_status`. -/
structure Update where
  status : JobStatus
  progress : Option Rat := none
  logs : Option String := none
  error : Option String := none

/-- What `update_status` writes, given the metadata it has read: a missing key starts
from `{"job_id": job_id}`, an argument that is `None` keeps the old field, and the key
gets an expiry exactly at a terminal status. -/
def updateMeta (raw : Option JobMeta) (j : JobId) (u : Update) : Entry :=
  let m := raw.getD
    { jobId := j, kind := none, status := u.status, progress := none, payload := none,
      logs := none, error := none }
  { job :=
      { m with
        status := u.status
        progress := u.progress <|> m.progress
        logs := u.logs <|> m.logs
        error := u.error <|> m.error }
    ttl := u.status.terminal }

@[simp] theorem updateMeta_status (raw : Option JobMeta) (j : JobId) (u : Update) :
    (updateMeta raw j u).job.status = u.status := rfl

@[simp] theorem updateMeta_ttl (raw : Option JobMeta) (j : JobId) (u : Update) :
    (updateMeta raw j u).ttl = u.status.terminal := rfl

/-- Metadata read under the key `j` carries the id `j`. -/
def Names (j : JobId) (raw : Option JobMeta) : Prop := ∀ m, raw = some m → m.jobId = j

theorem updateMeta_jobId {raw : Option JobMeta} {j : JobId} (h : Names j raw) (u : Update) :
    (updateMeta raw j u).job.jobId = j := by
  cases raw with
  | none => rfl
  | some m => exact h m rfl

/-- The Redis data behind `JobQueue`. -/
structure Redis where
  /-- `QUEUE_KEY`, its head first. -/
  queue : List JobId
  /-- `JOB_KEY_PREFIX + job_id`. -/
  jobs : JobId → Option Entry

namespace Redis

variable (r : Redis) (j : JobId)

def empty : Redis := { queue := [], jobs := fun _ ↦ none }

/-- `GET` of a metadata key. -/
def get : Option JobMeta := (r.jobs j).map Entry.job

/-- `SET` of a metadata key; without an expiry it clears the previous one. -/
def set (e : Entry) : Redis := { r with jobs := Function.update r.jobs j (some e) }

/-- The expiry of a metadata key. -/
def expire : Redis := { r with jobs := Function.update r.jobs j none }

/-- `LPUSH` on the queue. -/
def lpush : Redis := { r with queue := j :: r.queue }

/-- The removal of the queue's head by `BLPOP`. -/
def pop : Redis := { r with queue := r.queue.tail }

/-- `enqueue`: one pipeline, executed as a transaction, sets the metadata and pushes
the id at the back. -/
def enqueue (k : Kind) (p : Payload) : Redis :=
  { queue := r.queue ++ [j]
    jobs := Function.update r.jobs j (some
      { job :=
          { jobId := j, kind := some k, status := .queued, progress := some 0, payload := some p,
            logs := none, error := none }
        ttl := false }) }

/-- The status recorded for a job. -/
def status : Option JobStatus := (r.get j).map JobMeta.status

end Redis

end Adapta.Jobs
