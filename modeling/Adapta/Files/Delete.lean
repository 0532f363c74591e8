import Adapta.Lib.System
import Adapta.Files.Extract

/-!
# Deleting a file

`delete_file` of `adapta/api/v1/files.py` removes a file's vectors from Chroma, then its
row, with its chunk rows, from Postgres.  The worker may be indexing the file, or
extracting from it, at the same time.

Postgres locks order the two commits: a job that has inserted chunk rows holds a key share
lock on the file's row, and the `DELETE` waits for it; while the `DELETE` holds the row,
inserts and updates wait.  A waiting call may also be the victim of a deadlock, which is
one more way to raise.  Nothing orders the vectors: those a job upserts after the request
has looked at Chroma are seen by nobody.
-/

namespace Adapta.Files

open Lib

/-! ## The system -/

/-- The await points of `delete_file`. -/
inductive DeletePc where
  /-- The `SELECT` of the `collections` row. -/
  | collection
  /-- The two calls of `delete_file_chunks`. -/
  | get
  | remove (ids : List Nat)
  /-- The `DELETE` of the row. -/
  | row
  /-- Its cascade to the chunks, and the commit. -/
  | commit
  | succeeded
  | failed
deriving DecidableEq, Repr

/-- The job of the worker. -/
inductive Job where
  | index (j : IndexJob)
  | extract (pc : ExtractPc)
deriving DecidableEq

namespace Job

/-- The job has ended. -/
def isOver : Job → Bool
  | .index j => j.isOver
  | .extract pc => pc.isOver

/-- The job's transaction keeps others from deleting the file's row. -/
def share : Job → Bool
  | .index j => j.share
  | .extract _ => false

/-- The job's transaction keeps others from deleting chunk rows. -/
def holdsChunks : Job → Bool
  | .index _ => false
  | .extract pc => pc.holdsChunks

def thread (f : FileId) : Job → Option Thread
  | .index j => j.thread f
  | .extract pc => pc.thread f

end Job

structure State where
  stores : Stores
  /-- All file ids below it have been used. -/
  nextId : FileId
  /-- The job the worker runs, and its file. -/
  worker : Option (FileId × Job)
  /-- Threads whose coroutines were cancelled. -/
  threads : List Thread
  /-- The requests, each with its file. -/
  deletes : List (FileId × DeletePc)

def State.init : State :=
  { stores := .empty, nextId := 0, worker := none, threads := [], deletes := [] }

/-- One atomic step. -/
inductive Act where
  /-- An upload commits its row. -/
  | upload
  /-- The worker starts a job, or is done with one. -/
  | startIndex (f : FileId)
  | startExtract (f : FileId)
  | next
  /-- The worker process dies. -/
  | crash
  | index (e : JobEv)
  | extract (e : ExtractEv)
  /-- A thread makes its next call. -/
  | thread (n : Nat)
  /-- `delete_file` finds the row. -/
  | delete (f : FileId)
  /-- The awaited call of a request returns. -/
  | deleteOk (n : Nat)
  /-- A request ends with an error. -/
  | deleteError (n : Nat)
deriving DecidableEq

namespace State

variable (c : Config) (s : State)

/-- A request holds the lock of the row of `f`. -/
def rowLocked (f : FileId) : Bool := (f, .commit) ∈ s.deletes

/-- The worker holds a lock that keeps the row of `f` from being deleted. -/
def rowShared (f : FileId) : Bool := s.worker.any fun w ↦ w.1 = f ∧ w.2.share

/-- The worker holds locks on chunk rows of `f`. -/
def chunksHeld (f : FileId) : Bool := s.worker.any fun w ↦ w.1 = f ∧ w.2.holdsChunks

def setDelete (n : Nat) (f : FileId) (pc : DeletePc) : State :=
  { s with deletes := s.deletes.set n (f, pc) }

/-- The await of the job was cancelled: a call on a thread goes on. -/
def leaveThread (f : FileId) (j : Job) : State :=
  { s with threads := (j.thread f).toList ++ s.threads }

/-- One event of the job of `f`. -/
def jobMove (f : FileId) (j : Job) (x : Stores × Job) (cancels : Bool) : State :=
  let s' := { s with stores := x.1, worker := some (f, x.2) }
  if cancels then s'.leaveThread f j else s'

/-- The awaited call of the request `n` for `f` returns. -/
def deleteOk (n : Nat) (f : FileId) : DeletePc → Option State
  | .collection => some (s.setDelete n f (if s.stores.collection then .get else .row))
  | .get =>
      match s.stores.chroma with
      -- `VectorStoreFailed`
      | none => some (s.setDelete n f .failed)
      | some _ =>
          let ids := s.stores.fileIds f
          some (s.setDelete n f (if ids = [] then .row else .remove ids))
  | .remove ids => some { s.setDelete n f .row with stores := s.stores.deleteIds f ids }
  | .row =>
      if s.rowShared f ∨ s.rowLocked f then none else some (s.setDelete n f .commit)
  | .commit =>
      if s.chunksHeld f then none
      else some { s.setDelete n f .succeeded with stores := s.stores.dropFile f }
  | .succeeded | .failed => none

end State

/-- The event cancels the await. -/
def JobEv.cancels : JobEv → Bool
  | .deadline _ | .cancel _ => true
  | _ => false

def ExtractEv.cancels : ExtractEv → Bool
  | .cancel _ => true
  | _ => false

/-- One step of the system. -/
def step (c : Config) (s : State) : Act → Option State
  | .upload => some
      { s with
        stores := s.stores.setFile s.nextId (some ⟨.pending, none⟩)
        nextId := s.nextId + 1 }
  -- jobs are enqueued, any number of times, for files that were uploaded
  | .startIndex f =>
      if s.worker = none ∧ f < s.nextId then
        some { s with worker := some (f, .index (.attempt false .lookup)) }
      else none
  | .startExtract f =>
      if s.worker = none ∧ f < s.nextId then some { s with worker := some (f, .extract .lookup) }
      else none
  | .next => if s.worker.any fun w ↦ w.2.isOver then some { s with worker := none } else none
  | .crash => some { s with worker := none, threads := [] }
  | .index e =>
      match s.worker with
      | some (f, .index j) =>
          (j.step c f s.stores (s.rowLocked f) e).map fun x ↦
            s.jobMove f (.index j) (x.1, .index x.2) e.cancels
      | _ => none
  | .extract e =>
      match s.worker with
      | some (f, .extract pc) =>
          (pc.step c f s.stores (s.rowLocked f) e).map fun x ↦
            s.jobMove f (.extract pc) (x.1, .extract x.2) e.cancels
      | _ => none
  | .thread n =>
      match s.threads[n]? with
      | some t =>
          let x := t.run s.stores
          some { s with stores := x.1, threads := x.2.toList ++ s.threads.eraseIdx n }
      | none => none
  | .delete f =>
      if (s.stores.files f).isSome then
        some { s with deletes := s.deletes ++ [(f, .collection)] }
      else none
  | .deleteOk n =>
      match s.deletes[n]? with
      | some (f, pc) => s.deleteOk n f pc
      | none => none
  | .deleteError n =>
      match s.deletes[n]? with
      | some (f, pc) => if pc = .succeeded then none else some (s.setDelete n f .failed)
      | none => none

/-- Files, their jobs and their deletion. -/
def system (c : Config) : System State Act := ⟨State.init, step c⟩

/-! ## Steps -/

variable {c : Config} {s s' : State} {x : Act} {f : FileId} {pc : DeletePc} {n : Nat}

/-- What a step does. -/
inductive Move (c : Config) (s : State) : Act → State → Prop
  | upload : Move c s .upload
      { s with
        stores := s.stores.setFile s.nextId (some ⟨.pending, none⟩)
        nextId := s.nextId + 1 }
  | startIndex {f : FileId} : Move c s (.startIndex f)
      { s with worker := some (f, .index (.attempt false .lookup)) }
  | startExtract {f : FileId} : Move c s (.startExtract f)
      { s with worker := some (f, .extract .lookup) }
  | next : Move c s .next { s with worker := none }
  | crash : Move c s .crash { s with worker := none, threads := [] }
  | index {f : FileId} {j j' : IndexJob} {st : Stores} {e : JobEv}
      (hw : s.worker = some (f, .index j))
      (hj : j.step c f s.stores (s.rowLocked f) e = some (st, j')) :
      Move c s (.index e) (s.jobMove f (.index j) (st, .index j') e.cancels)
  | extract {f : FileId} {pc pc' : ExtractPc} {st : Stores} {e : ExtractEv}
      (hw : s.worker = some (f, .extract pc))
      (hpc : pc.step c f s.stores (s.rowLocked f) e = some (st, pc')) :
      Move c s (.extract e) (s.jobMove f (.extract pc) (st, .extract pc') e.cancels)
  | thread {n : Nat} {t : Thread} (ht : s.threads[n]? = some t) : Move c s (.thread n)
      { s with
        stores := (t.run s.stores).1
        threads := (t.run s.stores).2.toList ++ s.threads.eraseIdx n }
  | delete {f : FileId} (hf : (s.stores.files f).isSome = true) : Move c s (.delete f)
      { s with deletes := s.deletes ++ [(f, .collection)] }
  | deleteOk {n : Nat} {f : FileId} {pc : DeletePc} {s' : State}
      (hd : s.deletes[n]? = some (f, pc)) (hn : s.deleteOk n f pc = some s') :
      Move c s (.deleteOk n) s'
  | deleteError {n : Nat} {f : FileId} {pc : DeletePc} (hd : s.deletes[n]? = some (f, pc)) :
      Move c s (.deleteError n) (s.setDelete n f .failed)

theorem Move.of_step (h : step c s x = some s') : Move c s x s' := by
  cases x with
  | upload =>
      cases h
      exact .upload
  | startIndex f =>
      simp only [step, Option.ite_none_right_eq_some, Option.some.injEq] at h
      obtain ⟨-, rfl⟩ := h
      exact .startIndex
  | startExtract f =>
      simp only [step, Option.ite_none_right_eq_some, Option.some.injEq] at h
      obtain ⟨-, rfl⟩ := h
      exact .startExtract
  | next =>
      simp only [step, Option.ite_none_right_eq_some, Option.some.injEq] at h
      obtain ⟨-, rfl⟩ := h
      exact .next
  | crash =>
      cases h
      exact .crash
  | index e =>
      simp only [step] at h
      split at h
      · next f j hw =>
          obtain ⟨⟨st, j'⟩, hj, rfl⟩ := Option.map_eq_some_iff.mp h
          exact .index hw hj
      · cases h
  | extract e =>
      simp only [step] at h
      split at h
      · next f pc hw =>
          obtain ⟨⟨st, pc'⟩, hpc, rfl⟩ := Option.map_eq_some_iff.mp h
          exact .extract hw hpc
      · cases h
  | thread n =>
      simp only [step] at h
      split at h
      · next t ht =>
          cases h
          exact .thread ht
      · cases h
  | delete f =>
      simp only [step, Option.ite_none_right_eq_some, Option.some.injEq] at h
      obtain ⟨hf, rfl⟩ := h
      exact .delete hf
  | deleteOk n =>
      simp only [step] at h
      split at h
      · next f pc hd => exact .deleteOk hd h
      · cases h
  | deleteError n =>
      simp only [step] at h
      split at h
      · next f pc hd =>
          simp only [Option.ite_none_left_eq_some, Option.some.injEq] at h
          obtain ⟨-, rfl⟩ := h
          exact .deleteError hd
      · cases h

@[simp] theorem State.jobMove_stores (j : Job) (y : Stores × Job) (cancels : Bool) :
    (s.jobMove f j y cancels).stores = y.1 := by
  cases cancels <;> rfl

@[simp] theorem State.jobMove_nextId (j : Job) (y : Stores × Job) (cancels : Bool) :
    (s.jobMove f j y cancels).nextId = s.nextId := by
  cases cancels <;> rfl

@[simp] theorem State.jobMove_worker (j : Job) (y : Stores × Job) (cancels : Bool) :
    (s.jobMove f j y cancels).worker = some (f, y.2) := by
  cases cancels <;> rfl

/-- A request has nothing to do with the worker, gives out no id, and changes the stores by the two
calls that delete something. -/
theorem State.deleteOk_effect (h : s.deleteOk n f pc = some s') :
    s'.nextId = s.nextId ∧ s'.worker = s.worker ∧ s'.threads = s.threads ∧
      (s'.stores = s.stores ∨ (∃ ids, s'.stores = s.stores.deleteIds f ids) ∨
        s'.stores = s.stores.dropFile f) := by
  cases pc with
  | collection =>
      cases h
      exact ⟨rfl, rfl, rfl, .inl rfl⟩
  | get =>
      simp only [State.deleteOk] at h
      split at h
      · cases h
        exact ⟨rfl, rfl, rfl, .inl rfl⟩
      · cases h
        exact ⟨rfl, rfl, rfl, .inl rfl⟩
  | remove ids =>
      cases h
      exact ⟨rfl, rfl, rfl, .inr (.inl ⟨ids, rfl⟩)⟩
  | row =>
      simp only [State.deleteOk, Option.ite_none_left_eq_some, Option.some.injEq] at h
      obtain ⟨-, rfl⟩ := h
      exact ⟨rfl, rfl, rfl, .inl rfl⟩
  | commit =>
      simp only [State.deleteOk, Option.ite_none_left_eq_some, Option.some.injEq] at h
      obtain ⟨-, rfl⟩ := h
      exact ⟨rfl, rfl, rfl, .inr (.inr rfl)⟩
  | succeeded | failed => cases h

end Adapta.Files
