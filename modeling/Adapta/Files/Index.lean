import Adapta.Files.Stores

/-!
# The index job

The body of an `index` job: `_index_attempt` and `_fail_file` of `adapta/worker/main.py`,
and `index_file_by_id` and `_index_file` of `adapta/api/v1/files.py`.

A program counter is an await.  `effect` is what the awaited call does to the stores,
`resume` where the code goes on when it returns, and `afterRaise` where an exception takes
it.  A call that raises, or whose await is cancelled, may have been executed all the same.

## What is abstracted

* Parsing, contextual retrieval and the embedding of the chunks: they return or raise, and
  the chunks are the event's.
* The check of the collection's embedding model and dimension, which raises or passes.
* A call on a thread cannot be cancelled: the thread is left behind (`Thread`).
* The texts of database errors are parameters.
-/

namespace Adapta.Files

open Lib

/-- Settings, and the texts of two database errors. -/
structure Config where
  indexJobTimeoutSeconds : Nat
  /-- `StaleDataError`: an `UPDATE` matched no row. -/
  staleData : String
  /-- `IntegrityError`: a foreign key or unique constraint. -/
  integrity : String

/-- An exception. -/
structure Exc where
  /-- It is one of `_TRANSIENT`. -/
  transient : Bool
  /-- It is a `TimeoutError`. -/
  timeout : Bool
  message : String
deriving DecidableEq, Repr

def Config.staleDataError (c : Config) : Exc := ⟨true, false, c.staleData⟩

def Config.integrityError (c : Config) : Exc := ⟨true, false, c.integrity⟩

/-- The message of an index job that ran out of time twice. -/
def Config.timeoutMessage (c : Config) : String :=
  "Indexing timed out after " ++ toString c.indexJobTimeoutSeconds ++
    " s - the vector index or the document parser stopped answering. " ++
    "Check the stack with GET /health/deep, then upload the file again."

/-- The settings of the concrete runs. -/
def Config.sample : Config := ⟨600, "StaleDataError", "IntegrityError"⟩

/-! ## Threads -/

/-- A Chroma call on a thread whose coroutine is gone. -/
inductive Thread where
  | ensure
  | upsert (f : FileId) (cs : List Chunk)
  /-- The two calls of `delete_file_chunks`. -/
  | get (f : FileId)
  | delete (f : FileId) (ids : List Nat)
deriving DecidableEq, Repr

/-- The next call of a thread, and what is left of it. -/
def Thread.run (st : Stores) : Thread → Stores × Option Thread
  | .ensure => (st.ensureCollection, none)
  | .upsert f cs => (st.ensureCollection.indexChunks f cs, none)
  | .get f => (st, if st.fileIds f = [] then none else some (.delete f (st.fileIds f)))
  | .delete f ids => (st.deleteIds f ids, none)

/-! ## One attempt -/

/-- The await points of `index_file_by_id` and `_index_file`. -/
inductive IndexPc where
  /-- The `SELECT` of `index_file_by_id`. -/
  | lookup
  /-- The `SELECT` of `_index_file`, which is tried several times. -/
  | find (tries : Nat)
  /-- The commit of `processing`. -/
  | startCommit (o : Tracked FileRow)
  /-- The `INSERT ... ON CONFLICT DO NOTHING` of the `collections` row, and its commit. -/
  | insertCollection
  /-- The check of the embedding model and dimension. -/
  | checkCollection
  /-- `ensure_collection`, on a thread. -/
  | ensure
  | parse
  /-- `persist_chunks`: the flush of the chunk rows. -/
  | persist (cs : List Chunk)
  /-- `ensure_collection` and `index_chunks`, on a thread. -/
  | upsert (cs : List Chunk)
  /-- The commit of `indexed` and of the chunk rows. -/
  | endCommit (cs : List Chunk)
  /-- The `except` branch removes the vectors: the two calls of `delete_file_chunks`. -/
  | cleanGet (e : Exc)
  | cleanDelete (e : Exc) (ids : List Nat)
  /-- It loads the row in a new session; `share` if the first one still has its lock. -/
  | mark (e : Exc) (share : Bool)
  /-- It commits the outcome. -/
  | markCommit (e : Exc) (share : Bool) (o : Tracked FileRow)
  /-- Returned; whether a retry is wanted. -/
  | ended (retry : Bool)
  /-- An exception has left it. -/
  | raised (e : Exc)
deriving DecidableEq

/-- The assignments of the `except` branch. -/
def markRow (e : Exc) (retry : Bool) (r : FileRow) : FileRow :=
  { r with
    status := if retry then .pending else .failed
    errorMessage := if retry then none else some e.message }

/-- The chunk rows can be inserted: their file exists and their ids are new. -/
def insertable (st : Stores) (f : FileId) (cs : List Chunk) : Bool :=
  (st.files f).isSome ∧ (cs.map Chunk.index).Nodup ∧
    ∀ c ∈ cs, c.index ∉ (st.chunks f).map Chunk.index

namespace IndexPc

variable (c : Config) (f : FileId) (final : Bool) (st : Stores)

/-- The number of `SELECT`s `_index_file` makes to find its row. -/
def lookupTries : Nat := 10

/-- A retry is wanted after an exception. -/
def retry (e : Exc) : Bool := e.transient && !final

/-- What the awaited call does, or the error the database answers with. -/
def effect : IndexPc → Except Exc Stores
  | .startCommit o | .markCommit _ _ o =>
      match st.writeFile f o with
      | some st' => .ok st'
      | none => .error c.staleDataError
  | .insertCollection => .ok { st with collection := true }
  | .ensure => .ok st.ensureCollection
  | .persist cs => if cs = [] ∨ insertable st f cs then .ok st else .error c.integrityError
  | .upsert cs => .ok (st.ensureCollection.indexChunks f cs)
  | .endCommit cs =>
      match st.files f with
      | some r => .ok
          ((st.setFile f (some { r with status := .indexed })).setChunks f (st.chunks f ++ cs))
      | none => .error c.staleDataError
  | .cleanDelete _ ids => .ok (st.deleteIds f ids)
  | _ => .ok st

/-- Where the code goes on when the awaited call returns. -/
def resume : IndexPc → IndexPc
  | .lookup =>
      match st.files f with
      | none => .ended false
      | some r => if r.status.transient then .find lookupTries else .ended false
  | .find tries =>
      match st.files f with
      | some r => .startCommit ((Tracked.load r).assign fun r ↦ { r with status := .processing })
      | none => if tries ≤ 1 then .ended false else .find (tries - 1)
  | .startCommit _ => .insertCollection
  | .insertCollection => .checkCollection
  | .checkCollection => .ensure
  | .ensure => .parse
  | .parse => .parse
  | .persist cs => .upsert cs
  | .upsert cs => .endCommit cs
  | .endCommit _ => .ended false
  -- a missing collection is an error, which the branch swallows
  | .cleanGet e => if st.fileIds f = [] then .mark e false else .cleanDelete e (st.fileIds f)
  | .cleanDelete e _ => .mark e false
  | .mark e share =>
      match st.files f with
      | some r => .markCommit e share ((Tracked.load r).assign (markRow e (retry final e)))
      | none => .ended (retry final e)
  | .markCommit e _ _ => .ended (retry final e)
  | .ended retry => .ended retry
  | .raised e => .raised e

/-- Where an exception of the awaited call leads. -/
def afterRaise (e : Exc) : IndexPc → IndexPc
  | .lookup | .mark _ _ | .markCommit _ _ _ | .ended _ | .raised _ => .raised e
  | .find _ | .startCommit _ | .insertCollection | .checkCollection | .ensure | .parse
  | .persist _ => .mark e false
  -- the session keeps its transaction until the branch is left
  | .upsert cs => .mark e (cs ≠ [])
  | .endCommit _ => .cleanGet e
  | .cleanGet e' | .cleanDelete e' _ => .mark e' false

/-- The awaited call needs a lock on the file's row that a `DELETE` of the row excludes. -/
def needsRow : IndexPc → Bool
  | .startCommit o | .markCommit _ _ o => o.now ≠ o.saved
  | .persist cs => cs ≠ []
  | .endCommit _ => true
  | _ => false

/-- The transaction holds a key share lock on the file's row: it has inserted chunks. -/
def share : IndexPc → Bool
  | .upsert cs | .endCommit cs => cs ≠ []
  | .mark _ share | .markCommit _ share _ => share
  | _ => false

/-- The thread that is left when the await is cancelled. -/
def thread : IndexPc → Option Thread
  | .ensure => some .ensure
  | .upsert cs => some (.upsert f cs)
  | .cleanGet _ => some (.get f)
  | .cleanDelete _ ids => some (.delete f ids)
  | _ => none

end IndexPc

/-! ## The job -/

/-- The body of an `index` job. -/
inductive IndexJob where
  | attempt (final : Bool) (pc : IndexPc)
  /-- `_fail_file`: the `SELECT`, the commit, and the two calls of `delete_file_chunks`. -/
  | failSelect
  | failCommit (o : Tracked FileRow)
  | failGet
  | failDelete (ids : List Nat)
  | returned
  /-- It raised: a `DomainError` with its message, or any other exception. -/
  | raised (message : Option String)
  | cancelled
deriving DecidableEq

/-- An event of the job. -/
inductive JobEv where
  /-- The awaited call returns. -/
  | ok
  /-- The parsing returns. -/
  | parsed (cs : List Chunk)
  /-- The awaited call raises. -/
  | raised (e : Exc) (applied : Bool)
  /-- `wait_for` cancels the attempt. -/
  | deadline (applied : Bool)
  /-- The worker cancels the job. -/
  | cancel (applied : Bool)
deriving DecidableEq

/-- The assignments of `_fail_file`. -/
def failRow (message : String) (r : FileRow) : FileRow :=
  { r with status := .failed, errorMessage := some message }

namespace IndexJob

variable (c : Config) (f : FileId) (st : Stores)

/-- After a blown deadline. -/
def timedOut (final : Bool) : IndexJob := if final then .failSelect else .attempt true .lookup

/-- `_run_index_job` takes over when an attempt is over.  A `TimeoutError` that leaves the
attempt looks like its deadline. -/
def settle (final : Bool) : IndexPc → IndexJob
  | .ended retry => if retry ∧ ¬final then .attempt true .lookup else .returned
  | .raised e => if e.timeout then timedOut final else .raised none
  | pc => .attempt final pc

/-- `_fail_file` is over, and `Timeout` is raised. -/
def raiseTimeout : IndexJob := .raised (some c.timeoutMessage)

/-- What the awaited call does, or the error the database answers with. -/
def effect : IndexJob → Except Exc Stores
  | .attempt _ pc => pc.effect c f st
  | .failCommit o =>
      match st.writeFile f o with
      | some st' => .ok st'
      | none => .error c.staleDataError
  | .failDelete ids => .ok (st.deleteIds f ids)
  | _ => .ok st

/-- Where the job goes on when the awaited call returns. -/
def resume : IndexJob → IndexJob
  | .attempt final pc => settle final (pc.resume f final st)
  | .failSelect =>
      match st.files f with
      | some r =>
          if r.status.transient then .failCommit ((Tracked.load r).assign (failRow c.timeoutMessage))
          else raiseTimeout c
      | none => raiseTimeout c
  | .failCommit _ => .failGet
  | .failGet => if st.fileIds f = [] then raiseTimeout c else .failDelete (st.fileIds f)
  | .failDelete _ => raiseTimeout c
  | j => j

/-- Where an exception takes the job; `_fail_file` swallows those of Chroma. -/
def afterRaise (e : Exc) : IndexJob → IndexJob
  | .attempt final pc => settle final (pc.afterRaise e)
  | .failGet | .failDelete _ => raiseTimeout c
  | _ => .raised none

/-- The job is over; `settle` leaves no attempt that is. -/
def isOver : IndexJob → Bool
  | .attempt _ (.ended _) | .attempt _ (.raised _) => true
  | .returned | .raised _ | .cancelled => true
  | _ => false

/-- The job waits for the parser. -/
def parsing : IndexJob → Bool
  | .attempt _ .parse => true
  | _ => false

/-- The awaited call needs a lock on the file's row that a `DELETE` of the row excludes. -/
def needsRow : IndexJob → Bool
  | .attempt _ pc => pc.needsRow
  | .failCommit o => o.now ≠ o.saved
  | _ => false

/-- The transaction of the job holds a key share lock on the file's row. -/
def share : IndexJob → Bool
  | .attempt _ pc => pc.share
  | _ => false

/-- The thread that is left when the await is cancelled. -/
def thread : IndexJob → Option Thread
  | .attempt _ pc => pc.thread f
  | .failGet => some (.get f)
  | .failDelete ids => some (.delete f ids)
  | _ => none

/-- The stores after a call that may have been executed. -/
def mayApply (applied : Bool) (j : IndexJob) : Stores :=
  match applied, j.effect c f st with
  | true, .ok st' => st'
  | _, _ => st

/-- One event of the job; `locked` if a `DELETE` of the file's row holds its lock. -/
def step (locked : Bool) (j : IndexJob) (e : JobEv) : Option (Stores × IndexJob) :=
  let waits := locked ∧ j.needsRow
  if j.isOver then none
  else
    match e with
    | .ok =>
        if j.parsing ∨ waits then none
        else
          match j.effect c f st with
          | .ok st' => some (st', j.resume c f st)
          | .error e => some (st, j.afterRaise c e)
    | .parsed cs =>
        match j with
        | .attempt final .parse => some (st, .attempt final (.persist cs))
        | _ => none
    | .raised e applied => some (j.mayApply c f st (applied ∧ ¬waits), j.afterRaise c e)
    | .deadline applied =>
        match j with
        -- a call on a thread is left to its thread
        | .attempt final pc =>
            some (j.mayApply c f st (applied ∧ ¬waits ∧ pc.thread f = none), timedOut final)
        | _ => none
    | .cancel applied =>
        some (j.mayApply c f st (applied ∧ ¬waits ∧ j.thread f = none), .cancelled)

end IndexJob

end Adapta.Files
