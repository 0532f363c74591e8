import Adapta.Lib.Slices
import Adapta.Lib.Text

/-!
# The chunks of a project in Postgres and in Chroma

A chunk is a row of `chunks`, and an entry of the project's Chroma collection.  Two programs
write the entries: `index_chunks` of `adapta/services/rag.py`, from the parsed chunks, and
`scripts/reembed.py`, from the rows.

## What is abstracted

An entry holds the text that was embedded and the model it was embedded with, in place of the
vector that the model computes from it.  Of a chunk and its row, the columns that neither
writer reads (section, OCR marks, hash, fields) are left out.  A collection's `hnsw:space` is
the same everywhere.
-/

namespace Adapta.Reembed

open Lib

abbrev FileId := Str
abbrev ChunkId := Str
abbrev ProjectId := Str
abbrev Model := Str

/-- `Chunk` of `documents.py`. -/
structure Chunk where
  text : Str
  /-- The filename. -/
  source : Str
  index : Nat
  page : Option Nat
  /-- The situating sentence. -/
  context : Option Str
deriving DecidableEq, Repr

/-- `ProjectChunk`. -/
structure ProjectChunk where
  id : ChunkId
  fileId : FileId
  chunkIndex : Nat
  page : Option Nat
  text : Str
  context : Option Str
deriving DecidableEq, Repr

/-- A model under its name, and the size of its vectors. -/
@[ext] structure Space where
  model : Model
  dim : Nat
deriving DecidableEq, Repr

/-- What a Chroma collection holds under one id. -/
structure Entry where
  id : ChunkId
  document : Str
  /-- The metadata. -/
  source : Str
  chunkIndex : Nat
  fileId : FileId
  /-- The text that was embedded. -/
  input : Str
  /-- What it was embedded with. -/
  space : Space
deriving DecidableEq, Repr

/-- A Chroma collection. -/
structure Coll where
  /-- The `embedding_model` of its metadata, which is set when it is created. -/
  embeddingModel : Option Model
  entries : List Entry
deriving DecidableEq, Repr

/-- `f"{file_id}_{index}"`. -/
def chunkId (fileId : FileId) (index : Nat) : ChunkId :=
  fileId ++ .char '_' :: (Nat.toDigits 10 index).map .char

/-- `context + text` when there is a situating sentence. -/
def withContext (context : Option Str) (text : Str) : Str :=
  match context with
  | some (c :: cs) => (c :: cs) ++ str "\n\n" ++ text
  | _ => text

/-- What gets embedded for a chunk. -/
def indexedText (c : Chunk) : Str := withContext c.context c.text

/-- The rows of a file's chunks. -/
def buildChunkRows (fileId : FileId) (chunks : List Chunk) : List ProjectChunk :=
  chunks.map fun c ↦
    { id := chunkId fileId c.index
      fileId := fileId
      chunkIndex := c.index
      page := c.page
      text := c.text
      context := c.context }

namespace Coll

/-- `collection.upsert`: an entry under an id that is there is replaced. -/
def upsert (c : Coll) (es : List Entry) : Coll :=
  { c with entries := c.entries.filter (fun e ↦ e.id ∉ es.map Entry.id) ++ es }

/-- `collection.delete(ids=…)`. -/
def delete (c : Coll) (ids : List ChunkId) : Coll :=
  { c with entries := c.entries.filter fun e ↦ e.id ∉ ids }

/-- `collection.count`. -/
def count (c : Coll) : Nat := c.entries.length

@[simp] theorem upsert_embeddingModel (c : Coll) (es : List Entry) :
    (c.upsert es).embeddingModel = c.embeddingModel := rfl

/-- Entries under new ids are added. -/
theorem upsert_of_disjoint {c : Coll} {es : List Entry}
    (h : ∀ e ∈ c.entries, e.id ∉ es.map Entry.id) : (c.upsert es).entries = c.entries ++ es := by
  rw [upsert, List.filter_eq_self.mpr]
  intro e he
  simpa using h e he

end Coll

/-- What `index_chunks` upserts. -/
def indexEntries (sp : Space) (fileId : FileId) (chunks : List Chunk) : List Entry :=
  chunks.map fun c ↦
    { id := chunkId fileId c.index
      document := c.text
      source := c.source
      chunkIndex := c.index
      fileId := fileId
      input := indexedText c
      space := sp }

/-- `index_chunks`: the collection is created if there is none. -/
def indexChunks (sp : Space) (fileId : FileId) (chunks : List Chunk) (live : Option Coll) :
    Option Coll :=
  if chunks = [] then live
  else some ((live.getD ⟨some sp.model, []⟩).upsert (indexEntries sp fileId chunks))

/-! ## The client -/

/-- The collections of a client by name: `proj_{project_id}`, and the one that a rebuild
writes. -/
inductive Name where
  | live (p : ProjectId)
  /-- `{name}__reembed`. -/
  | reembed (p : ProjectId)
deriving DecidableEq, Repr

abbrev Client := Name → Option Coll

namespace Client

variable (client : Client)

/-- `delete_collection`, which answers with an error if there is none. -/
def deleteCollection (n : Name) : Option Client :=
  match client n with
  | some _ => some (Function.update client n none)
  | none => none

/-- `create_collection`, which answers with an error if there is one. -/
def createCollection (n : Name) (model : Model) : Option Client :=
  match client n with
  | some _ => none
  | none => some (Function.update client n (some ⟨some model, []⟩))

/-- `upsert` on a collection. -/
def upsert (n : Name) (es : List Entry) : Option Client :=
  match client n with
  | some c => some (Function.update client n (some (c.upsert es)))
  | none => none

/-- `modify(name=…)`, which answers with an error if the new name is taken. -/
def rename (n n' : Name) : Option Client :=
  match client n, client n' with
  | some c, none => some (Function.update (Function.update client n none) n' (some c))
  | _, _ => none

/-- A `delete_collection` whose error is swallowed. -/
def dropCollection (n : Name) : Client := (client.deleteCollection n).getD client

@[simp] theorem dropCollection_self (n : Name) : client.dropCollection n n = none := by
  rw [dropCollection, deleteCollection]
  cases h : client n with
  | none => exact h
  | some c => exact Function.update_self n none client

theorem dropCollection_of_ne {n n' : Name} (h : n' ≠ n) :
    client.dropCollection n n' = client n' := by
  rw [dropCollection, deleteCollection]
  cases client n with
  | none => rfl
  | some c => exact Function.update_of_ne h none client

end Client

end Adapta.Reembed
