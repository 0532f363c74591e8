import Adapta.Lib.System
import Adapta.Jobs.Queue

/-!
# The worker loop

`worker_loop` of `adapta/worker/main.py` pops one job at a time, runs its handler as
an asyncio task, and waits for the task while keeping the heartbeat key fresh.  Here it
is a transition system over the Redis data: an `Act` is one Redis command with its
reply, one event of a handler task, a signal, the death of the process, or a step of
another process that shares the Redis (an upload that enqueues, a sweep that fails a
stuck file's job).

Every await of the loop is a program counter.  While a job is handled the loop is at
`Pc.job t p`, where `t` is `in_flight["task"]`.  The loop can leave a job whose task
is still pending: nothing stops the task then, and it goes on as one of `strays`.

## What is abstracted

* The body of a handler (`process_adapter`, `index_file_by_id`, `process_run`,
  `extract_file`) is opaque: it returns or raises.  The follow-up of an index job,
  `enqueue_after_index`, never raises, and what it enqueues is an `Act.enqueue`.
* A Redis command that raises may have been executed or not (`Reply.error`), and so may
  the one a cancelled task was waiting for.
* A cancelled task gets its `CancelledError` at some later point, and is not kept from
  making progress until then, so there are more runs here than in the program.
* The startup sweep is not a program counter; sweeps may run at any time.
-/

namespace Adapta.Jobs

open Lib

/-- The end of a Redis command. -/
inductive Reply where
  | ok
  /-- It raised; the server may have executed it all the same. -/
  | error (applied : Bool)
deriving DecidableEq, Repr

/-- Whether the server has executed the command. -/
def Reply.applied : Reply → Bool
  | .ok => true
  | .error b => b

/-! ## Handler tasks -/

/-- How a task ended. -/
inductive Exit where
  | returned
  /-- A `DomainError` with its message, or any other exception. -/
  | raised (message : Option String)
  | cancelled
deriving DecidableEq, Repr

/-- The await point of a handler task. -/
inductive TaskPc where
  /-- Scheduled by `ensure_future`, not started. -/
  | dispatch
  /-- The `GET` and the `SET` of `update_status(status="running")`. -/
  | runGet
  | runSet (raw : Option JobMeta)
  /-- The job itself. -/
  | body
  /-- The `GET` and the `SET` of `update_status(status="succeeded", progress=1.0)`. -/
  | doneGet
  | doneSet (raw : Option JobMeta)
  /-- `enqueue_after_index`. -/
  | after
  | finished (e : Exit)
deriving DecidableEq

/-- A task made by `ensure_future(_run_job(meta))`. -/
structure Task where
  job : JobMeta
  pc : TaskPc
  /-- `task.cancel()` was called on it. -/
  cancelling : Bool
deriving DecidableEq

/-- `task.done()`. -/
def Task.done (t : Task) : Bool :=
  match t.pc with
  | .finished _ => true
  | _ => false

/-- The task ended with an exception other than its cancellation. -/
def Task.raised (t : Task) : Bool :=
  match t.pc with
  | .finished (.raised _) => true
  | _ => false

/-- The `HANDLERS` lookup of `_run_job`. -/
def JobMeta.handled (m : JobMeta) : Bool :=
  match m.kind with
  | some (.other _) | none => false
  | some _ => true

/-- The row id a handler passes to its body.  The `extract` handler indexes the payload,
and fails without an `id`; the others fall back to the job id. -/
def JobMeta.target (m : JobMeta) : Option JobId :=
  match m.kind with
  | some .extract => m.payload.bind Payload.id
  | _ => some ((m.payload.bind Payload.id).getD m.jobId)

/-- The message of the `UnknownJobKind` that `_run_job` raises. -/
def unknownJobKind : String := "This job type is not supported."

/-- An event of a task. -/
inductive TaskEv where
  | start
  /-- The reply to the Redis command it awaits. -/
  | reply (r : Reply)
  | bodyReturn
  | bodyRaise (message : Option String)
  | afterReturn
  /-- The `CancelledError` arrives; an awaited `SET` may have been executed. -/
  | cancel (applied : Bool)
deriving DecidableEq, Repr

namespace Task

/-- The `SET` a task awaits, if the server executes it. -/
def write (t : Task) (applied : Bool) (r : Redis) : Redis :=
  let j := t.job.jobId
  match t.pc, applied with
  | .runSet raw, true => r.set j (updateMeta raw j { status := .running })
  | .doneSet raw, true => r.set j (updateMeta raw j { status := .succeeded, progress := some 1 })
  | _, _ => r

/-- The program counter after a Redis command succeeds. -/
def resume (t : Task) (r : Redis) : Option TaskPc :=
  match t.pc with
  | .runGet => some (.runSet (r.get t.job.jobId))
  | .runSet _ => some (if t.job.target.isSome then .body else .finished (.raised none))
  | .doneGet => some (.doneSet (r.get t.job.jobId))
  | .doneSet _ => some (if t.job.kind = some .index then .after else .finished .returned)
  | _ => none

/-- One event of a task, with its effect on Redis. -/
def step (r : Redis) (t : Task) : TaskEv → Option (Redis × Task)
  | .start =>
      if t.pc = .dispatch then
        some (r, { t with
          pc := if t.job.handled then .runGet else .finished (.raised unknownJobKind) })
      else none
  | .reply .ok => (t.resume r).map fun pc ↦ (t.write true r, { t with pc := pc })
  | .reply (.error applied) =>
      (t.resume r).map fun _ ↦ (t.write applied r, { t with pc := .finished (.raised none) })
  | .bodyReturn => if t.pc = .body then some (r, { t with pc := .doneGet }) else none
  | .bodyRaise message =>
      if t.pc = .body then some (r, { t with pc := .finished (.raised message) }) else none
  | .afterReturn => if t.pc = .after then some (r, { t with pc := .finished .returned }) else none
  | .cancel applied =>
      if t.cancelling ∧ ¬t.done then
        some (t.write applied r, { t with pc := .finished .cancelled })
      else none

end Task

/-! ## The loop -/

/-- The await points of the loop while it handles a job. -/
inductive JobPc where
  /-- `asyncio.wait({task}, timeout=30)`. -/
  | wait
  /-- The heartbeat that follows it. -/
  | beat
  /-- The `GET` and the `SET` of `update_status(status="failed", error=...)`. -/
  | failGet (error : String)
  | failSet (error : String) (raw : Option JobMeta)
  /-- The `GET`, the `SET` and the `LPUSH` of `requeue`. -/
  | requeueGet
  | requeueSet (raw : Option JobMeta)
  | requeuePush
deriving DecidableEq

/-- The await points of `worker_loop`. -/
inductive Pc where
  /-- No worker process. -/
  | down
  /-- The heartbeats before and after the warm-up. -/
  | startBeat
  | warmUp
  | readyBeat
  /-- The heartbeat at the head of the loop. -/
  | loopBeat
  /-- The `BLPOP` and the `GET` of `dequeue`. -/
  | popping
  | fetching (j : JobId)
  /-- `asyncio.sleep(2)` after a failed `dequeue`. -/
  | sleeping
  | job (t : Task) (p : JobPc)
  /-- `queue.close()`. -/
  | closing
deriving DecidableEq

structure State where
  redis : Redis
  pc : Pc
  /-- The `shutdown` event. -/
  shutdown : Bool
  /-- Tasks the loop has left. -/
  strays : List Task
  /-- `update_status` calls of sweeps that have read and not yet written. -/
  sweeps : List (JobId × Option JobMeta)

def State.init : State :=
  { redis := .empty, pc := .down, shutdown := false, strays := [], sweeps := [] }

/-- One atomic step. -/
inductive Act where
  /-- `enqueue`, by any process. -/
  | enqueue (j : JobId) (k : Kind) (p : Payload)
  /-- The expiry of a finished job's metadata passes. -/
  | expire (j : JobId)
  /-- The `GET` and the `SET` of a sweep's `update_status(status="failed")`. -/
  | sweepGet (j : JobId)
  | sweepSet (j : JobId) (raw : Option JobMeta) (error : String)
  /-- The worker process starts. -/
  | start
  /-- The awaited heartbeat ends. -/
  | beat (r : Reply)
  /-- The warm-up ends, and the signal handlers are installed. -/
  | warm
  /-- The `BLPOP` of `dequeue` ends. -/
  | pop (r : Reply)
  /-- It ends with the `RedisTimeoutError` that `dequeue` takes for an empty poll. -/
  | popTimeout (applied : Bool)
  /-- The `GET` of `dequeue` ends. -/
  | fetch (r : Reply)
  /-- `asyncio.sleep` or `asyncio.wait` is over. -/
  | wake
  /-- The awaited command of the failure branch's `update_status` ends. -/
  | fail (r : Reply)
  /-- The awaited command of `requeue` ends. -/
  | requeue (r : Reply)
  /-- `queue.close()` ends. -/
  | closed
  /-- SIGTERM or SIGINT. -/
  | sigterm
  /-- The process dies. -/
  | crash
  /-- An event of `in_flight["task"]`. -/
  | task (e : TaskEv)
  /-- An event of a task the loop has left. -/
  | stray (n : Nat) (e : TaskEv)
deriving DecidableEq

namespace State

variable (s : State)

/-- The test `while not shutdown.is_set()`. -/
def loopTop : State := { s with pc := if s.shutdown then .closing else .loopBeat }

/-- The loop goes on to the next job; a pending task is left to itself. -/
def leave (t : Task) : State :=
  { s with strays := if t.done then s.strays else t :: s.strays }.loopTop

/-- The process is gone, with all its tasks. -/
def die : State := { s with pc := .down, strays := [] }

/-- The exits of the `try` block once the heartbeat after a wait has succeeded. -/
def afterBeat (t : Task) : State :=
  match t.pc with
  | .finished .returned => s.loopTop
  | .finished (.raised message) => { s with pc := .job t (.failGet (message.getD "Job failed.")) }
  | .finished .cancelled => { s with pc := .job t .requeueGet }
  | _ => { s with pc := .job t .wait }

/-- `queue.heartbeat()` returns or raises. -/
def beat (r : Reply) : Option State :=
  match s.pc, r with
  | .startBeat, .ok => some { s with pc := .warmUp }
  | .readyBeat, .ok => some s.loopTop
  | .loopBeat, .ok => some { s with pc := .popping }
  | .job t .beat, .ok => some (s.afterBeat t)
  -- inside the `try` of the wait, so the error takes its `except Exception` branch
  | .job t .beat, .error _ => some { s with pc := .job t (.failGet "Job failed.") }
  | .startBeat, .error _ | .readyBeat, .error _ | .loopBeat, .error _ => some s.die
  | _, _ => none

/-- `blpop` returns or raises. -/
def pop (r : Reply) : Option State :=
  match s.pc, s.redis.queue, r with
  | .popping, j :: _, .ok => some { s with redis := s.redis.pop, pc := .fetching j }
  | .popping, [], .ok => some s.loopTop
  | .popping, _, .error applied =>
      some { s with redis := if applied then s.redis.pop else s.redis, pc := .sleeping }
  | _, _, _ => none

/-- The second half of `dequeue`, and the start of the handler. -/
def fetch (r : Reply) : Option State :=
  match s.pc, r with
  | .fetching j, .ok =>
      match s.redis.get j with
      | none => some s.loopTop
      | some m => some { s with pc := .job { job := m, pc := .dispatch, cancelling := false } .wait }
  | .fetching _, .error _ => some { s with pc := .sleeping }
  | _, _ => none

/-- One command of `update_status(job_id, status="failed", error=...)`. -/
def fail (r : Reply) : Option State :=
  match s.pc with
  | .job t (.failGet error) =>
      match r with
      | .ok => some { s with pc := .job t (.failSet error (s.redis.get t.job.jobId)) }
      | .error _ => some s.die
  | .job t (.failSet error raw) =>
      let e := updateMeta raw t.job.jobId { status := .failed, error := some error }
      let s' := { s with redis := if r.applied then s.redis.set t.job.jobId e else s.redis }
      some (if r = .ok then s'.leave t else s'.die)
  | _ => none

/-- One command of `requeue(job_id)`, after which the loop breaks. -/
def requeue (r : Reply) : Option State :=
  match s.pc with
  | .job t .requeueGet =>
      match r with
      | .ok => some { s with pc := .job t (.requeueSet (s.redis.get t.job.jobId)) }
      | .error _ => some s.die
  | .job t (.requeueSet raw) =>
      let e := updateMeta raw t.job.jobId { status := .queued, progress := some 0 }
      let s' := { s with redis := if r.applied then s.redis.set t.job.jobId e else s.redis }
      some (if r = .ok then { s' with pc := .job t .requeuePush } else s'.die)
  | .job t .requeuePush =>
      let s' := { s with redis := if r.applied then s.redis.lpush t.job.jobId else s.redis }
      some (if r = .ok then { s' with pc := .closing } else s'.die)
  | _ => none

/-- `_request_shutdown`. -/
def requestShutdown : State :=
  match s.pc with
  | .job t p =>
      { s with shutdown := true, pc := .job { t with cancelling := t.cancelling || !t.done } p }
  | _ => { s with shutdown := true }

end State

/-- One step of the system. -/
def step (s : State) : Act → Option State
  | .enqueue j k p => some { s with redis := s.redis.enqueue j k p }
  | .expire j =>
      if (s.redis.jobs j).any Entry.ttl then some { s with redis := s.redis.expire j } else none
  | .sweepGet j => some { s with sweeps := (j, s.redis.get j) :: s.sweeps }
  | .sweepSet j raw error =>
      if (j, raw) ∈ s.sweeps then
        let e := updateMeta raw j { status := .failed, error := some error }
        some { s with redis := s.redis.set j e, sweeps := s.sweeps.erase (j, raw) }
      else none
  | .start =>
      if s.pc = .down then some { s with pc := .startBeat, shutdown := false } else none
  | .beat r => s.beat r
  | .warm => if s.pc = .warmUp then some { s with pc := .readyBeat } else none
  | .pop r => s.pop r
  | .popTimeout applied =>
      if s.pc = .popping then
        some { s with redis := if applied then s.redis.pop else s.redis }.loopTop
      else none
  | .fetch r => s.fetch r
  | .wake =>
      match s.pc with
      | .sleeping => some s.loopTop
      | .job t .wait => some { s with pc := .job t .beat }
      | _ => none
  | .fail r => s.fail r
  | .requeue r => s.requeue r
  | .closed => if s.pc = .closing then some s.die else none
  | .sigterm =>
      match s.pc with
      -- no handler is installed yet, and the signal kills the process
      | .startBeat | .warmUp => some s.die
      | .down => none
      | _ => some s.requestShutdown
  | .crash => if s.pc = .down then none else some s.die
  | .task e =>
      match s.pc with
      | .job t p => (t.step s.redis e).map fun x ↦ { s with redis := x.1, pc := .job x.2 p }
      | _ => none
  | .stray n e =>
      match s.strays[n]? with
      | some t => (t.step s.redis e).map fun x ↦
          { s with redis := x.1, strays := s.strays.set n x.2 }
      | none => none

/-- The queue with its one worker. -/
def system : System State Act := ⟨State.init, step⟩

end Adapta.Jobs
