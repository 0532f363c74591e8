import Mathlib.Logic.Function.Basic
import Adapta.Lib.UnitOfWork

/-!
# The two stores of a file

The text of a file is kept in Postgres, as rows of `chunks`, and in the project's Chroma
collection, as vectors with the same ids.  There is no transaction over both.  This module
has the rows that indexing, extraction and deletion touch, and the effect of each Chroma
call of `RAGService`.

All files belong to one project, so there is one `collections` row and one Chroma
collection.  A chunk's id, `{file_id}_{index}`, is the pair of the two numbers.  Embeddings,
and the columns and metadata that nothing here reads, are left out.
-/

namespace Adapta.Files

open Lib

abbrev FileId := Nat

inductive FileStatus where
  | pending
  | processing
  | indexed
  | failed
deriving DecidableEq, Repr

/-- The row was left in a transient state if its work is not under way. -/
def FileStatus.transient : FileStatus → Bool
  | .pending | .processing => true
  | .indexed | .failed => false

/-- A row of `project_files`. -/
structure FileRow where
  status : FileStatus
  errorMessage : Option String
deriving DecidableEq, Repr

/-- The row after a flush. -/
def FileRow.flush (o : Tracked FileRow) (cur : FileRow) : FileRow :=
  { status := flushField o.saved.status o.now.status cur.status
    errorMessage := flushField o.saved.errorMessage o.now.errorMessage cur.errorMessage }

/-- A chunk of a file; also its row in `chunks`. -/
structure Chunk where
  index : Nat
  page : Option Nat
  text : String
deriving DecidableEq, Repr

/-- An entry of the Chroma collection. -/
structure Vector where
  file : FileId
  index : Nat
  document : String
deriving DecidableEq, Repr

/-- What is committed in Postgres and stored in Chroma. -/
structure Stores where
  files : FileId → Option FileRow
  chunks : FileId → List Chunk
  /-- The project has a `collections` row. -/
  collection : Bool
  /-- The Chroma collection, if it exists. -/
  chroma : Option (List Vector)

namespace Stores

variable (st : Stores) (f : FileId)

def empty : Stores :=
  { files := fun _ ↦ none, chunks := fun _ ↦ [], collection := false, chroma := none }

def setFile (r : Option FileRow) : Stores := { st with files := Function.update st.files f r }

def setChunks (cs : List Chunk) : Stores := { st with chunks := Function.update st.chunks f cs }

/-- The vectors of the collection. -/
def vectors : List Vector := st.chroma.getD []

/-- The flush of a file object; `none` if its `UPDATE` matches no row. -/
def writeFile (o : Tracked FileRow) : Option Stores :=
  if o.now = o.saved then some st
  else (st.files f).map fun cur ↦ st.setFile f (some (cur.flush o))

/-- The row of `f` and, by the foreign key's cascade, its chunks are deleted. -/
def dropFile : Stores := (st.setFile f none).setChunks f []

/-! ### Chroma calls -/

/-- `get_or_create_collection`. -/
def ensureCollection : Stores := { st with chroma := some st.vectors }

/-- The vectors `index_chunks` stores for a file. -/
def toVectors (f : FileId) (cs : List Chunk) : List Vector :=
  cs.map fun c ↦ { file := f, index := c.index, document := c.text }

/-- `index_chunks`: an upsert replaces the vectors of the same id. -/
def indexChunks (cs : List Chunk) : Stores :=
  if cs = [] then st
  else
    let old := st.vectors.filter fun v ↦ ¬(v.file = f ∧ v.index ∈ cs.map Chunk.index)
    { st with chroma := some (old ++ toVectors f cs) }

/-- The ids a `get` with `where={"file_id": f}` returns. -/
def fileIds : List Nat := (st.vectors.filter fun v ↦ v.file = f).map Vector.index

/-- `collection.delete(ids=...)`, for ids of the file `f`. -/
def deleteIds (ids : List Nat) : Stores :=
  { st with chroma := st.chroma.map (·.filter fun v ↦ ¬(v.file = f ∧ v.index ∈ ids)) }

end Stores

/-! ## Vectors of a file -/

variable {st : Stores} {f g : FileId} {cs : List Chunk} {ids : List Nat} {v : Vector}

@[simp] theorem Stores.vectors_setFile (r : Option FileRow) :
    (st.setFile f r).vectors = st.vectors := rfl

@[simp] theorem Stores.vectors_setChunks : (st.setChunks f cs).vectors = st.vectors := rfl

@[simp] theorem Stores.vectors_dropFile : (st.dropFile f).vectors = st.vectors := rfl

@[simp] theorem Stores.vectors_ensureCollection : st.ensureCollection.vectors = st.vectors := rfl

/-- A flush of file rows does not touch Chroma. -/
theorem Stores.writeFile_eq {o : Tracked FileRow} {st' : Stores} (h : st.writeFile f o = some st') :
    st'.chunks = st.chunks ∧ st'.collection = st.collection ∧ st'.chroma = st.chroma := by
  rw [Stores.writeFile] at h
  split at h
  · cases h
    exact ⟨rfl, rfl, rfl⟩
  · obtain ⟨cur, -, rfl⟩ := Option.map_eq_some_iff.mp h
    exact ⟨rfl, rfl, rfl⟩

theorem Stores.mem_toVectors : v ∈ toVectors f cs ↔ ∃ c ∈ cs, v = ⟨f, c.index, c.text⟩ := by
  rw [Stores.toVectors, List.mem_map]
  constructor
  · rintro ⟨c, hc, rfl⟩
    exact ⟨c, hc, rfl⟩
  · rintro ⟨c, hc, rfl⟩
    exact ⟨c, hc, rfl⟩

theorem Stores.mem_indexChunks : v ∈ (st.indexChunks f cs).vectors ↔
    (v ∈ st.vectors ∧ ¬(v.file = f ∧ v.index ∈ cs.map Chunk.index)) ∨
      ∃ c ∈ cs, v = ⟨f, c.index, c.text⟩ := by
  rw [Stores.indexChunks]
  split
  · next h => simp [h]
  · show v ∈ _ ++ _ ↔ _
    rw [List.mem_append, List.mem_filter, decide_eq_true_eq, Stores.mem_toVectors]

/-- An upsert of `f` adds vectors of its own chunks only. -/
theorem Stores.index_of_mem_indexChunks (h : v ∈ (st.indexChunks f cs).vectors) :
    v ∈ st.vectors ∨ (v.file = f ∧ ∃ c ∈ cs, v.index = c.index) := by
  rcases Stores.mem_indexChunks.mp h with ⟨hv, -⟩ | ⟨c, hc, rfl⟩
  · exact .inl hv
  · exact .inr ⟨rfl, c, hc, rfl⟩

theorem Stores.mem_deleteIds : v ∈ (st.deleteIds f ids).vectors ↔
    v ∈ st.vectors ∧ ¬(v.file = f ∧ v.index ∈ ids) := by
  rw [Stores.deleteIds, Stores.vectors, Stores.vectors]
  cases st.chroma with
  | none => simp
  | some vs =>
      show v ∈ vs.filter _ ↔ _
      rw [List.mem_filter, decide_eq_true_eq]
      rfl

theorem Stores.mem_fileIds {n : Nat} :
    n ∈ st.fileIds f ↔ ∃ v ∈ st.vectors, v.file = f ∧ v.index = n := by
  simp [Stores.fileIds, and_assoc]

end Adapta.Files
