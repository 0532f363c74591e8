import Mathlib.Data.List.Sort
import Adapta.Files.Index

/-!
# The extract job

`extract_file` of `adapta/services/extraction.py` reads pages of an indexed file with a
vision model.  A page whose text it got is re-chunked: in one transaction the page's rows
are deleted and the new ones inserted, with the Chroma calls in between.  There is no
`except` branch around this: an exception ends the job, and the vectors stay.

The pages that are selected and what the model reads are the events'.  The `fields` column
is left out, and with it the commit of a page that has fields but no text.
-/

namespace Adapta.Files

open Lib

/-- A page that is being replaced, and the pages that follow. -/
structure PageJob where
  page : Nat
  rest : List Nat
  /-- Pages done so far. -/
  done : Nat
deriving DecidableEq, Repr

/-- The await points of `extract_file`. -/
inductive ExtractPc where
  /-- The `SELECT`s of the file, its project and its pages. -/
  | lookup
  /-- The rendering of the page and the model calls. -/
  | read (p : PageJob)
  /-- The `SELECT` of the page's chunks; `pieces` if the model returned text. -/
  | select (p : PageJob) (pieces : Option (List String))
  /-- The `SELECT` of the largest chunk index. -/
  | maxIndex (p : PageJob) (pieces : List String) (old : List Chunk)
  /-- The `DELETE` of the page's chunks. -/
  | deleteOld (p : PageJob) (old new : List Chunk)
  /-- `index_chunks`, on a thread; `held` if the `DELETE` has matched a row. -/
  | upsert (p : PageJob) (old new : List Chunk) (held : Bool)
  /-- `delete_chunk_ids`, on a thread. -/
  | surplus (p : PageJob) (old new : List Chunk) (held : Bool)
  /-- The flush of the new rows and the commit. -/
  | commit (p : PageJob) (old new : List Chunk) (held : Bool)
  | returned
  | raised (message : String)
  | cancelled
deriving DecidableEq

/-- An event of the job. -/
inductive ExtractEv where
  /-- The awaited call returns. -/
  | ok
  /-- The pages to read. -/
  | selected (pages : List Nat)
  /-- What the model read on a page. -/
  | read (pieces : Option (List String))
  /-- The page's model call failed, and the page is skipped. -/
  | skipped
  /-- The awaited call raises. -/
  | raised (message : String) (applied : Bool)
  | cancel (applied : Bool)
deriving DecidableEq

def fileNotFound : String := "File not found"

def extractionFailed : String :=
  "Visual extraction failed on every page. Check that the vision model is available."

/-- The chunks of a re-read page: the old indexes first, then new ones past the largest. -/
def newChunks (page maxIdx : Nat) (old : List Chunk) (pieces : List String) : List Chunk :=
  pieces.zipIdx.map fun x ↦
    { index := ((old[x.2]?).map Chunk.index).getD (maxIdx + 1 + (x.2 - old.length))
      page := some page
      text := x.1 }

namespace ExtractPc

variable (c : Config) (f : FileId) (st : Stores)

/-- The loop goes on to the next page, or ends. -/
def nextPage (pages : List Nat) (done : Nat) : ExtractPc :=
  match pages with
  | page :: rest => .read ⟨page, rest, done⟩
  | [] => if done = 0 then .raised extractionFailed else .returned

/-- The rows of `f` that are left after the `DELETE`. -/
def kept (old : List Chunk) : List Chunk :=
  (st.chunks f).filter fun r ↦ r.index ∉ old.map Chunk.index

/-- The ids of the old chunks that no new chunk has. -/
def surplusIds (old new : List Chunk) : List Nat :=
  (old.map Chunk.index).filter fun n ↦ n ∉ new.map Chunk.index

/-- What the awaited call does, or the error the database answers with. -/
def effect : ExtractPc → Except Exc Stores
  | .upsert _ _ new _ => .ok (st.indexChunks f new)
  | .surplus _ old new _ => .ok (st.deleteIds f (surplusIds old new))
  | .commit _ old new _ =>
      let left := st.setChunks f (kept f st old)
      if new = [] ∨ insertable left f new then .ok (left.setChunks f (kept f st old ++ new))
      else .error c.integrityError
  | _ => .ok st

/-- Where the job goes on when the awaited call returns. -/
def resume : ExtractPc → ExtractPc
  | .select p pieces =>
      let old := ((st.chunks f).filter fun r ↦ r.page = some p.page).insertionSort
        fun r r' ↦ r.index ≤ r'.index
      match old, pieces with
      | [], _ => nextPage p.rest p.done
      | _ :: _, none => nextPage p.rest (p.done + 1)
      | _ :: _, some pieces => .maxIndex p pieces old
  | .maxIndex p pieces old =>
      let maxIdx := ((st.chunks f).map Chunk.index).foldl max 0
      .deleteOld p old (newChunks p.page maxIdx old pieces)
  | .deleteOld p old new =>
      .upsert p old new ((st.chunks f).any fun r ↦ r.index ∈ old.map Chunk.index)
  | .upsert p old new held =>
      if surplusIds old new = [] then .commit p old new held else .surplus p old new held
  | .surplus p old new held => .commit p old new held
  | .commit p _ _ _ => nextPage p.rest (p.done + 1)
  | pc => pc

/-- The job is over. -/
def isOver : ExtractPc → Bool
  | .returned | .raised _ | .cancelled => true
  | _ => false

/-- The event that ends the await is not a plain return. -/
def asking : ExtractPc → Bool
  | .lookup | .read _ => true
  | _ => false

/-- The awaited call needs a lock on the file's row that a `DELETE` of the row excludes. -/
def needsRow : ExtractPc → Bool
  | .commit _ _ new _ => new ≠ []
  | _ => false

/-- The transaction holds locks on chunk rows of the file. -/
def holdsChunks : ExtractPc → Bool
  | .upsert _ _ _ held | .surplus _ _ _ held | .commit _ _ _ held => held
  | _ => false

/-- The thread that is left when the await is cancelled. -/
def thread : ExtractPc → Option Thread
  | .upsert _ _ new _ => some (.upsert f new)
  | .surplus _ old new _ => some (.delete f (surplusIds old new))
  | _ => none

/-- The stores after a call that may have been executed. -/
def mayApply (applied : Bool) (pc : ExtractPc) : Stores :=
  match applied, pc.effect c f st with
  | true, .ok st' => st'
  | _, _ => st

/-- One event of the job; `locked` if a `DELETE` of the file's row holds its lock. -/
def step (locked : Bool) (pc : ExtractPc) (e : ExtractEv) : Option (Stores × ExtractPc) :=
  let waits := locked ∧ pc.needsRow
  if pc.isOver then none
  else
    match e with
    | .ok =>
        if pc.asking ∨ waits then none
        else
          match pc.effect c f st with
          | .ok st' => some (st', pc.resume f st)
          | .error e => some (st, .raised e.message)
    | .selected pages =>
        match pc, pages with
        | .lookup, [] => some (st, if (st.files f).isSome then .returned else .raised fileNotFound)
        | .lookup, page :: rest =>
            some (st, if (st.files f).isSome then .read ⟨page, rest, 0⟩ else .raised fileNotFound)
        | _, _ => none
    | .read pieces =>
        match pc with
        | .read p => some (st, .select p pieces)
        | _ => none
    | .skipped =>
        match pc with
        | .read p => some (st, nextPage p.rest p.done)
        | _ => none
    | .raised message applied =>
        some (pc.mayApply c f st (applied ∧ ¬waits), .raised message)
    | .cancel applied =>
        some (pc.mayApply c f st (applied ∧ ¬waits ∧ pc.thread f = none), .cancelled)

end ExtractPc

end Adapta.Files
