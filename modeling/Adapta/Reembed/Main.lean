import Adapta.Reembed.Rebuild

/-!
# Runs of the script

`main` of `scripts/reembed.py` takes the projects one after the other, and each of them
through a sequence of calls to Chroma and to Postgres.  A run may die at any call, a call may
raise, and both may happen before or after the call has taken effect.

## What is abstracted

One step is one call; `_vector_count` is one call.  The embedding of a batch and the reads
before the loop have no effect on the stores, so that a crash or an exception there is one
before the next call.  No other program writes meanwhile: the chunks of a project are fixed.
-/

namespace Adapta.Reembed

open Lib

/-- The rows of `_project_rows` for each project; the ids are the primary key. -/
structure Chunks where
  rows : ProjectId → List Row
  nodup : ∀ p, ((rows p).map Row.id).Nodup

/-- `Collection`. -/
structure CollectionRow where
  projectId : ProjectId
  embeddingModel : Model
  embeddingDim : Option Nat
deriving DecidableEq, Repr

/-- The row names what the vectors are in. -/
def CollectionRow.Names (row : CollectionRow) (sp : Space) : Prop :=
  row.embeddingModel = sp.model ∧ row.embeddingDim = some sp.dim

/-- What both databases hold, and a history of the swaps. -/
structure Stores where
  client : Client
  collections : List CollectionRow
  /-- The projects whose live collection some run has deleted. -/
  dropped : List ProjectId
  /-- The projects whose rebuilt collection some run has renamed into place. -/
  rebuilt : List ProjectId

/-- The arguments of the script. -/
structure Args where
  projects : List ProjectId
  dryRun : Bool
  force : Bool
  batchSize : Int
deriving DecidableEq, Repr

/-- The collections that a run processes: all of them, or those of `--project`. -/
def Args.selects (args : Args) (row : CollectionRow) : Bool :=
  args.projects = [] ∨ row.projectId ∈ args.projects

/-- `needs_reembed`. -/
def needsReembed (row : CollectionRow) (target : Space) (nChunks : Nat) (nVectors : Option Nat) :
    Bool :=
  !(row.embeddingModel = target.model && row.embeddingDim = some target.dim &&
    nVectors = some nChunks)

/-- The calls for a project, in their order. -/
inductive Stage where
  /-- `_project_rows`. -/
  | rows
  /-- `_vector_count`. -/
  | count (rows : List Row)
  | deleteTmp (rows : List Row)
  | createTmp (rows : List Row)
  /-- The `upsert` of a batch, with the batches that follow. -/
  | upsert (rows batch : List Row) (rest : List (List Row))
  /-- `new.count()`. -/
  | verify (rows : List Row)
  | deleteLive (rows : List Row)
  | rename (rows : List Row)
  /-- The `UPDATE` of the row, and its commit. -/
  | update
deriving DecidableEq, Repr

/-- What follows a call. -/
inductive Follow where
  | goto (st : Stage)
  /-- The project is done, or skipped. -/
  | done
  /-- The exception is reported, and the project is counted as failed. -/
  | failed
deriving DecidableEq, Repr

section Calls

variable (chunks : Chunks) (target : Space) (args : Args) (col : CollectionRow) (stores : Stores)

/-- What a call does, or `none` if it raises by itself. -/
def call (p : ProjectId) : Stage → Option Stores
  | .rows | .count _ => some stores
  | .deleteTmp _ => do
      let client ← stores.client.deleteCollection (.reembed p)
      some { stores with client := client }
  | .createTmp _ => do
      let client ← stores.client.createCollection (.reembed p) target.model
      some { stores with client := client }
  | .upsert _ batch _ => do
      let client ← stores.client.upsert (.reembed p) (batch.map (rowEntry target))
      some { stores with client := client }
  | .verify rows => do
      let new ← stores.client (.reembed p)
      if new.count = rows.length then some stores else none
  | .deleteLive _ => do
      let client ← stores.client.deleteCollection (.live p)
      some { stores with client := client, dropped := p :: stores.dropped }
  | .rename _ => do
      let client ← stores.client.rename (.reembed p) (.live p)
      some { stores with client := client, rebuilt := p :: stores.rebuilt }
  | .update =>
      some { stores with
        collections := stores.collections.map fun row ↦
          if row.projectId = p then ⟨p, target.model, some target.dim⟩ else row }

/-- A call that does not return may have taken effect. -/
def mayCall (applied : Bool) (p : ProjectId) (st : Stage) : Stores :=
  if applied then (call target stores p st).getD stores else stores

/-- The project is skipped, reported, or rebuilt. -/
def afterCount (rows : List Row) (nVectors : Option Nat) : Follow :=
  if args.force || needsReembed col target rows.length nVectors then
    if args.dryRun then .done else .goto (.deleteTmp rows)
  else .done

/-- The next batch, or the check after the last one. -/
def nextBatch (rows : List Row) : List (List Row) → Stage
  | [] => .verify rows
  | batch :: rest => .upsert rows batch rest

/-- What follows a call that returns. -/
def resume : Stage → Follow
  | .rows => .goto (.count (chunks.rows col.projectId))
  | .count rows =>
      afterCount target args col rows ((stores.client (.live col.projectId)).map Coll.count)
  | .deleteTmp rows => .goto (.createTmp rows)
  | .createTmp rows =>
      match batches args.batchSize rows with
      | none => .failed
      | some bs => .goto (nextBatch rows bs)
  | .upsert rows _ rest => .goto (nextBatch rows rest)
  | .verify rows => .goto (.deleteLive rows)
  | .deleteLive rows => .goto (.rename rows)
  | .rename _ => .goto .update
  | .update => .done

/-- What follows a call that raises: three of them are in a `try` of their own. -/
def afterRaise : Stage → Follow
  | .count rows => afterCount target args col rows none
  | .deleteTmp rows => .goto (.createTmp rows)
  | .deleteLive rows => .goto (.rename rows)
  | _ => .failed

end Calls

/-- A run of `main` in its loop: the collection that is being processed comes first. -/
structure Run where
  args : Args
  cols : List CollectionRow
  stage : Stage
  failed : Nat
deriving DecidableEq, Repr

/-- The run goes on. -/
def Run.follow (r : Run) : Follow → Run
  | .goto st => { r with stage := st }
  | .done => { r with cols := r.cols.tail, stage := .rows }
  | .failed => { r with cols := r.cols.tail, stage := .rows, failed := r.failed + 1 }

inductive Phase where
  /-- No run has started, or the last one died. -/
  | idle
  | running (r : Run)
  /-- The last run has reported how many projects failed. -/
  | ended (args : Args) (failed : Nat)
deriving DecidableEq, Repr

structure State where
  stores : Stores
  phase : Phase

inductive Act where
  /-- A run starts, and reads the collections in any order. -/
  | start (args : Args) (cols : List CollectionRow)
  /-- The call returns, unless it raises by itself. -/
  | call
  /-- The call raises. -/
  | raise (applied : Bool)
  /-- The process dies. -/
  | crash (applied : Bool)
deriving DecidableEq, Repr

section Steps

variable (chunks : Chunks) (target : Space) (stores : Stores)

/-- One step of a run at a collection. -/
def stepAt (r : Run) (col : CollectionRow) : Act → Option State
  | .start _ _ => none
  | .call =>
      match call target stores col.projectId r.stage with
      | some stores' =>
          some ⟨stores', .running (r.follow (resume chunks target r.args col stores' r.stage))⟩
      | none => some ⟨stores, .running (r.follow (afterRaise target r.args col r.stage))⟩
  | .raise applied =>
      some ⟨mayCall target stores applied col.projectId r.stage,
        .running (r.follow (afterRaise target r.args col r.stage))⟩
  | .crash applied => some ⟨mayCall target stores applied col.projectId r.stage, .idle⟩

/-- One step of a run, which reports when no collection is left. -/
def stepRun (r : Run) (a : Act) : Option State :=
  match r.cols with
  | col :: _ => stepAt chunks target stores r col a
  | [] =>
      match a with
      | .start _ _ => none
      | .call => some ⟨stores, .ended r.args r.failed⟩
      | .raise _ | .crash _ => some ⟨stores, .idle⟩

/-- A run starts when none is going on. -/
def start : Act → Option State
  | .start args cols =>
      if cols.Perm (stores.collections.filter args.selects) then
        some ⟨stores, .running ⟨args, cols, .rows, 0⟩⟩
      else none
  | _ => none

end Steps

/-- Any number of runs towards a target model, one after the other. -/
def runs (chunks : Chunks) (target : Space) (client : Client) (collections : List CollectionRow) :
    System State Act where
  init := ⟨⟨client, collections, [], []⟩, .idle⟩
  next s a :=
    match s.phase with
    | .running r => stepRun chunks target s.stores r a
    | .idle | .ended _ _ => start s.stores a

end Adapta.Reembed
