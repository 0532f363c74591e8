import Adapta.Lib.System

/-!
# The inference engine around one `Llama` object

`adapta/core/inference.py` wraps the blocking llama-cpp calls of one `Llama`
instance for an asyncio server.  Two paths share the instance's lock:

* `generate` and `generate_chat` go through `_run_locked`: acquire the lock, submit
  the call to `_inference_executor`, register `lock.release()` as a done-callback
  of the executor future, then wait for the *shielded* future under a timeout;
* `generate_stream` acquires the lock, submits the stream creation and then one
  `next(stream)` per token, and releases the lock in a `finally` block.

A `State` holds every call made on the instance, the lock, and the executor: the
jobs not yet picked up by a thread (`queued`) and the native calls running on a
thread (`running`).  One `Act` is the code between two await points of one call, or
one event of a pool thread; `next` is the whole engine.

## What is abstracted

* `asyncio.Lock` is a mutex: a waiter may take it whenever it is free.  Its FIFO
  order is not modelled, so there are more runs here than in the program.  The lock
  records who took it last, which `release` does not look at: as in asyncio, any
  task may release it, and releasing a free lock is an error (`badReleases`).
* A submitted job runs to completion even if the coroutine that awaits it is
  cancelled.  A cancelled caller of `_run_locked` leaves its future alone (`shield`).
* Prompts, tokens and texts are dropped: what a native call produced, and whether
  the deadline has passed, are parameters of the action that reads them.
-/

namespace Adapta.Inference

open Lib

abbrev CallId := Nat

/-- The public entry points of `InferenceEngine`. -/
inductive Kind where
  | generate
  | generateChat
  | generateStream
deriving DecidableEq, Repr

/-- Whether a call takes the streaming path. -/
def Kind.streaming : Kind → Bool
  | .generate | .generateChat => false
  | .generateStream => true

/-- How a call ended for its caller. -/
inductive Outcome where
  | result
  | timeout
  | error
  | cancelled
deriving DecidableEq, Repr

/-- The await point a call is suspended at. -/
inductive Pc where
  /-- No such call has been made. -/
  | absent
  /-- The coroutine exists and has not run yet. -/
  | begin
  /-- `await lock.acquire()`. -/
  | acquiring
  /-- `_run_locked`: `await asyncio.wait_for(asyncio.shield(fut), timeout=timeout)`. -/
  | waiting
  /-- `generate_stream`: `await loop.run_in_executor(_inference_executor, _create_stream)`. -/
  | creating
  /-- `generate_stream`: `await loop.run_in_executor(_inference_executor, _next)`. -/
  | pulling
  /-- `generate_stream`: suspended at `yield delta`, waiting for the consumer. -/
  | yielded
  /-- The call has returned or raised. -/
  | finished (o : Outcome)
deriving DecidableEq, Repr

/-- The executor future of a call's latest submission. -/
inductive Fut where
  | idle
  /-- Submitted; its function has not returned. -/
  | pending
  /-- The function has returned or raised; the loop has not run the callbacks yet. -/
  | returned
  /-- The done-callback of `_run_locked` has run. -/
  | settled
deriving DecidableEq, Repr

/-- One call, with counters of its successful `lock.acquire()` and `lock.release()`. -/
structure Call where
  kind : Kind
  pc : Pc
  fut : Fut
  acquires : Nat
  releases : Nat
deriving DecidableEq, Repr

def Call.fresh (k : Kind) (pc : Pc) : Call :=
  { kind := k, pc := pc, fut := .idle, acquires := 0, releases := 0 }

/-- What a finished native call gave to the coroutine that awaits it. -/
inductive Pulled where
  /-- The function raised. -/
  | raised
  /-- `_next` returned `_SENTINEL`. -/
  | sentinel
  /-- A completion, a stream, or a chunk whose text is empty. -/
  | empty
  /-- A chunk with a non-empty `delta`. -/
  | delta
deriving DecidableEq, Repr

structure State where
  calls : CallId → Call
  /-- `none` is an unlocked lock, `some i` one last acquired by call `i`. -/
  lock : Option CallId
  /-- Work items of `_inference_executor` no thread has started, oldest first. -/
  queued : List CallId
  /-- Native calls running on a pool thread. -/
  running : List CallId
  /-- `lock.release()` calls that raised because the lock was free. -/
  badReleases : Nat

def State.init : State :=
  { calls := fun _ ↦ Call.fresh .generate .absent
    lock := none
    queued := []
    running := []
    badReleases := 0 }

namespace State

variable (s : State) (i : CallId)

def modify (f : Call → Call) : State :=
  { s with calls := Function.update s.calls i (f (s.calls i)) }

def setPc (pc : Pc) : State := s.modify i fun c ↦ { c with pc := pc }

/-- `lock.release()`, run on behalf of call `i`. -/
def release : State :=
  match s.lock with
  | none => { s with badReleases := s.badReleases + 1 }
  | some _ => { s.modify i fun c ↦ { c with releases := c.releases + 1 } with lock := none }

/-- `loop.run_in_executor(_inference_executor, fn)`. -/
def submit : State :=
  { s.modify i fun c ↦ { c with fut := .pending } with queued := s.queued ++ [i] }

/-- The `finally` block of `generate_stream`. -/
def finishStream (o : Outcome) : State := (s.setPc i (.finished o)).release i

/-- The head of the token loop: give up between tokens once the deadline has passed,
else pull the next token on the pool. -/
def tokenLoop (expired : Bool) : State :=
  if expired then s.finishStream i .timeout else (s.submit i).setPc i .pulling

end State

/-- One atomic step. -/
inductive Act where
  /-- A new call of the engine. -/
  | call (i : CallId) (k : Kind)
  /-- The coroutine runs up to `await lock.acquire()`. -/
  | begin (i : CallId)
  /-- The lock is granted; the call submits its first job. -/
  | acquire (i : CallId)
  /-- A free pool thread takes the oldest work item. -/
  | threadStart
  /-- The native call of `i` returns or raises on its thread. -/
  | threadReturn (i : CallId)
  /-- The done-callback registered by `_run_locked` runs. -/
  | doneCallback (i : CallId)
  /-- The coroutine continues with the result of its executor call. -/
  | resume (i : CallId) (r : Pulled) (expired : Bool)
  /-- The consumer of a stream asks for the next token. -/
  | next (i : CallId) (expired : Bool)
  /-- The `wait_for` deadline of `_run_locked` passes. -/
  | timeout (i : CallId)
  /-- The task is cancelled at its current await point. -/
  | cancel (i : CallId)
deriving DecidableEq, Repr

/-- One step of the engine over a pool of `maxWorkers` threads. -/
def step (maxWorkers : Nat) (s : State) : Act → Option State
  | .call i k =>
      if (s.calls i).pc = .absent then
        some (s.modify i fun _ ↦ .fresh k .begin)
      else none
  | .begin i => if (s.calls i).pc = .begin then some (s.setPc i .acquiring) else none
  | .acquire i =>
      if (s.calls i).pc = .acquiring ∧ s.lock = none then
        let s' := { s.modify i fun c ↦ { c with acquires := c.acquires + 1 } with lock := some i }
        some ((s'.submit i).setPc i (if (s.calls i).kind.streaming then .creating else .waiting))
      else none
  | .threadStart =>
      match s.queued with
      | [] => none
      | i :: q =>
          if s.running.length < maxWorkers then
            some { s with queued := q, running := i :: s.running }
          else none
  | .threadReturn i =>
      if i ∈ s.running then
        some { s.modify i fun c ↦ { c with fut := .returned } with running := s.running.erase i }
      else none
  | .doneCallback i =>
      -- streams register no callback on their futures
      if (s.calls i).kind.streaming = false ∧ (s.calls i).fut = .returned then
        some ((s.modify i fun c ↦ { c with fut := .settled }).release i)
      else none
  | .resume i r expired =>
      match (s.calls i).pc, (s.calls i).fut, r with
      | .waiting, .settled, .raised => some (s.setPc i (.finished .error))
      | .waiting, .settled, _ => some (s.setPc i (.finished .result))
      | .creating, .returned, .raised => some (s.finishStream i .error)
      | .creating, .returned, _ => some (s.tokenLoop i expired)
      | .pulling, .returned, .raised => some (s.finishStream i .error)
      | .pulling, .returned, .sentinel => some (s.finishStream i .result)
      | .pulling, .returned, .delta =>
          some ((s.modify i fun c ↦ { c with fut := .idle }).setPc i .yielded)
      | .pulling, .returned, .empty => some (s.tokenLoop i expired)
      | _, _, _ => none
  | .next i expired =>
      if (s.calls i).pc = .yielded then some (s.tokenLoop i expired) else none
  | .timeout i =>
      if (s.calls i).pc = .waiting then some (s.setPc i (.finished .timeout)) else none
  | .cancel i =>
      match (s.calls i).pc with
      | .begin | .acquiring | .waiting => some (s.setPc i (.finished .cancelled))
      | .creating | .pulling | .yielded => some (s.finishStream i .cancelled)
      | .absent | .finished _ => none

/-- The engine over one `Llama` instance and its one lock. -/
def engine (maxWorkers : Nat) : System State Act := ⟨State.init, step maxWorkers⟩

end Adapta.Inference
