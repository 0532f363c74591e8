import Mathlib.Data.List.Perm.Basic
import Mathlib.Data.List.Sort
import Adapta.Lib.System
import Adapta.Reembed.Stores

/-!
# What a rebuild writes, and what indexing wrote

The rows of a project are written by `_index_file`, with or without contextual retrieval, and
rewritten by `extract_file`; both hand the same chunks to `index_chunks`.  `_rebuild` of
`scripts/reembed.py` writes the collection again from the rows.

## What is abstracted

A job is one step here, and it is one that ends well: what a failed job leaves behind is not
the rebuild's doing.  What the parser, the vision model and the model that writes the
situating sentences give is the actions'.  The exceptions of `_rebuild` are not told apart.
-/

namespace Adapta.Reembed

open Lib

/-! ## The script -/

/-- A row of `_project_rows`. -/
structure Row where
  id : ChunkId
  text : Str
  chunkIndex : Nat
  fileId : FileId
  filename : Str
deriving DecidableEq, Repr

/-- A file's chunks are ordered by their index, and the files as the database has it. -/
def before (collate : FileId → FileId → Bool) (r r' : Row) : Bool :=
  if r.fileId = r'.fileId then r.chunkIndex ≤ r'.chunkIndex else collate r.fileId r'.fileId

/-- `_project_rows`: the chunks with the filename of their file. -/
def projectRows (collate : FileId → FileId → Bool) (files : FileId → Option Str)
    (chunks : List ProjectChunk) : List Row :=
  (chunks.filterMap fun r ↦ (files r.fileId).map fun filename ↦
    ⟨r.id, r.text, r.chunkIndex, r.fileId, filename⟩).insertionSort
      fun r r' ↦ before collate r r' = true

/-- What `_rebuild` upserts for a row. -/
def rowEntry (sp : Space) (r : Row) : Entry where
  id := r.id
  document := r.text
  source := r.filename
  chunkIndex := r.chunkIndex
  fileId := r.fileId
  input := r.text
  space := sp

/-- `rows[i : i + batch_size]` for `i` in `range(0, len(rows), batch_size)`: a step of zero is
refused, and a negative one gives no batch. -/
def batches (batchSize : Int) (rows : List Row) : Option (List (List Row)) :=
  if batchSize = 0 then none
  else if batchSize < 0 then some []
  else some (slices batchSize.toNat rows)

/-- The batches are upserted in their order. -/
def upsertAll (sp : Space) (n : Name) : Client → List (List Row) → Option Client
  | client, [] => some client
  | client, batch :: rest =>
      (client.upsert n (batch.map (rowEntry sp))).bind fun client ↦ upsertAll sp n client rest

/-- `_rebuild`. -/
def rebuild (sp : Space) (p : ProjectId) (batchSize : Int) (rows : List Row) (client : Client) :
    Option Client := do
  let client := client.dropCollection (.reembed p)
  let client ← client.createCollection (.reembed p) sp.model
  let client ← upsertAll sp (.reembed p) client (← batches batchSize rows)
  let new ← client (.reembed p)
  if new.count ≠ rows.length then none
  else (client.dropCollection (.live p)).rename (.reembed p) (.live p)

section Rebuild

variable {sp : Space} {p : ProjectId} {rows done batch : List Row} {rest : List (List Row)}
  {client : Client} {batchSize : Int}

/-- The rows that a collection holds, and a batch of further ones. -/
theorem upsert_rows {m : Option Model} (h : ((done ++ batch).map Row.id).Nodup) :
    Coll.upsert ⟨m, done.map (rowEntry sp)⟩ (batch.map (rowEntry sp)) =
      ⟨m, (done ++ batch).map (rowEntry sp)⟩ := by
  rw [List.map_append, List.nodup_append] at h
  have hentries : (Coll.upsert ⟨m, done.map (rowEntry sp)⟩ (batch.map (rowEntry sp))).entries =
      done.map (rowEntry sp) ++ batch.map (rowEntry sp) := by
    apply Coll.upsert_of_disjoint
    intro e he hmem
    obtain ⟨r, hr, rfl⟩ := List.mem_map.mp he
    obtain ⟨_, he', hid⟩ := List.mem_map.mp hmem
    obtain ⟨r', hr', rfl⟩ := List.mem_map.mp he'
    exact h.2.2 r.id (List.mem_map_of_mem hr) r'.id (List.mem_map_of_mem hr') hid.symm
  rw [List.map_append, ← hentries]
  rfl

theorem upsertAll_rows {n : Name} {m : Option Model}
    (hc : client n = some ⟨m, done.map (rowEntry sp)⟩)
    (h : ((done ++ rest.flatten).map Row.id).Nodup) :
    ∃ client', upsertAll sp n client rest = some client' ∧
      client' n = some ⟨m, (done ++ rest.flatten).map (rowEntry sp)⟩ := by
  induction rest generalizing done client with
  | nil => exact ⟨client, rfl, by simpa using hc⟩
  | cons batch rest ih =>
      rw [List.flatten_cons, ← List.append_assoc] at h ⊢
      have hbatch : ((done ++ batch).map Row.id).Nodup := by
        rw [List.map_append] at h
        exact h.of_append_left
      have hupsert : client.upsert n (batch.map (rowEntry sp)) =
          some (Function.update client n (some ⟨m, (done ++ batch).map (rowEntry sp)⟩)) := by
        simp only [Client.upsert, hc, upsert_rows hbatch]
      simp only [upsertAll, hupsert, Option.bind_some]
      exact ih (Function.update_self ..) h

/-- A rebuild in batches of at least one row leaves an entry for every row, whatever was there
before. -/
theorem rebuild_rows (hb : 1 ≤ batchSize) (h : (rows.map Row.id).Nodup) :
    ∃ client', rebuild sp p batchSize rows client = some client' ∧
      client' (.live p) = some ⟨some sp.model, rows.map (rowEntry sp)⟩ := by
  have hcreate : (client.dropCollection (.reembed p)).createCollection (.reembed p) sp.model =
      some (Function.update (client.dropCollection (.reembed p)) (.reembed p)
        (some ⟨some sp.model, []⟩)) := by
    simp only [Client.createCollection, Client.dropCollection_self]
  have hbatches : batches batchSize rows = some (slices batchSize.toNat rows) := by
    rw [batches, if_neg (by omega), if_neg (by omega)]
  have hflat : (slices batchSize.toNat rows).flatten = rows := flatten_slices (by omega)
  have hupserts : ∃ client₁, upsertAll sp (.reembed p) (Function.update
        (client.dropCollection (.reembed p)) (.reembed p) (some ⟨some sp.model, []⟩))
        (slices batchSize.toNat rows) = some client₁ ∧ client₁ (.reembed p) =
      some ⟨some sp.model, ([] ++ (slices batchSize.toNat rows).flatten).map (rowEntry sp)⟩ :=
    upsertAll_rows (Function.update_self ..) (by rwa [List.nil_append, hflat])
  rw [List.nil_append, hflat] at hupserts
  obtain ⟨client₁, hall, hnew⟩ := hupserts
  have hkeep : client₁.dropCollection (.live p) (.reembed p) =
      some ⟨some sp.model, rows.map (rowEntry sp)⟩ := by
    rw [Client.dropCollection_of_ne _ (by simp), hnew]
  refine ⟨_, ?_, Function.update_self (Name.live p) _ (Function.update
    (client₁.dropCollection (.live p)) (.reembed p) none)⟩
  simp [rebuild, hcreate, hbatches, hall, hnew, Coll.count, Client.rename, hkeep]

end Rebuild

end Adapta.Reembed
