import Mathlib.Data.List.Perm.Basic
import Adapta.Lib.Fallible
import Adapta.Lib.KeySort
import Adapta.Rag.Retrieve

/-!
# Projects with the same files

What a project's documents are, apart from the ids they were given, is a `Corpus`: the chunks of
its files with their names, indexes, texts and embeddings.  A `Project` of a corpus has an id for
each file, from which the ids of the chunks are made, and a Chroma collection that ranks the
chunks by distance.  Its `world` is what `retrieve` sees of it, with stores that do not fail and
without a reranker.

The ranking of the full-text leg is that of `_FTS_SQL` in `adapta/services/rag.py`.

## What is abstracted

* The embedding model and its distance, Postgres' lexemes and collation, the logarithm and the
  hash of a text are an `Engine`.  A collation tells names apart.
* Chroma ranks all chunks of a collection; chunks at one distance come in any order.
-/

namespace Adapta.Rag

open Lib

/-- What the ids of a project do not say: its chunks, each by its file and its index. -/
structure Corpus (φ ε : Type) where
  chunks : List (φ × Nat)
  nodup : chunks.Nodup
  filename : φ → String
  text : φ × Nat → String
  embedding : φ × Nat → ε

/-- What ranks texts. -/
structure Engine (ε : Type) where
  embedOne : String → Except Exc ε
  distance : ε → ε → Rat
  /-- `tsvector_to_array(to_tsvector(...))`. -/
  lexemes : String → List String
  ln : Rat → Rat
  /-- `rag_sparse_max_df`. -/
  sparseMaxDf : Rat
  contentHash : String → String
  /-- The sort key of a name in the database. -/
  collation : String → String
  collation_inj : collation.Injective

variable {φ ε : Type}

/-! ## Full-text search -/

section

variable (C : Corpus φ ε) (G : Engine ε)

/-- The number of chunks with a lexeme. -/
def documentFrequency (l : String) : Nat := C.chunks.countP fun x ↦ l ∈ G.lexemes (C.text x)

/-- The lexemes of a query that are in some chunk, and not in too many. -/
def queryLexemes (q : String) : List String :=
  (G.lexemes q).filter fun l ↦ 0 < documentFrequency C G l ∧
    (documentFrequency C G l : Rat) ≤ max (G.sparseMaxDf * C.chunks.length) 3

def idf (l : String) : Rat :=
  G.ln ((C.chunks.length - documentFrequency C G l + 1 / 2) /
    (documentFrequency C G l + 1 / 2) + 1)

/-- The lexemes of a query that a chunk has. -/
def sharedLexemes (q : String) (x : φ × Nat) : List String :=
  (queryLexemes C G q).filter fun l ↦ l ∈ G.lexemes (C.text x)

/-- The rank of a chunk that has some. -/
def ftsRank (q : String) (x : φ × Nat) : Rat :=
  roundTo ((sharedLexemes C G q x).map (idf C G)).sum 9

/-- The sort key but for the id. -/
def ftsKey (q : String) (x : φ × Nat) : Rat ×ₗ String ×ₗ Nat ×ₗ String :=
  toLex (-ftsRank C G q x, toLex (G.collation (C.filename x.1),
    toLex (x.2, G.contentHash (C.text x))))

/-- The chunks that a query matches. -/
def ftsMatches (q : String) : List (φ × Nat) :=
  C.chunks.filter fun x ↦ sharedLexemes C G q x ≠ []

end

/-! ## A project -/

/-- A project with the files of a corpus. -/
structure Project (C : Corpus φ ε) (G : Engine ε) where
  fileId : φ → FileId
  fileId_inj : fileId.Injective
  /-- Chroma's answer to a query, without its limit. -/
  ranking : ε → List (φ × Nat)
  perm : ∀ e, (ranking e).Perm C.chunks
  sorted : ∀ e, (ranking e).Pairwise fun x y ↦
    G.distance e (C.embedding x) ≤ G.distance e (C.embedding y)

namespace Project

section

variable {C : Corpus φ ε} {G : Engine ε} (P : Project C G)

/-- `f"{file_id}_{index}"`. -/
def chunkId (x : φ × Nat) : ChunkId := P.fileId x.1 ++ "_" ++ toString x.2

/-- The row of a chunk in Postgres. -/
def chunkRow (x : φ × Nat) : ChunkRow where
  id := P.chunkId x
  project := "project"
  file := P.fileId x.1
  chunkIndex := x.2
  text := C.text x
  page := none
  ocr := false
  ocrConfidence := none
  needsReview := false
  fields := []

/-- Its entry in Chroma. -/
def vectorRow (x : φ × Nat) : VectorRow where
  id := P.chunkId x
  file := P.fileId x.1
  source := some (C.filename x.1)
  chunkIndex := some x.2
  document := C.text x

/-- The entry with its distance to a query. -/
def vectorHit (e : ε) (x : φ × Nat) : VectorRow × Rat :=
  (P.vectorRow x, G.distance e (C.embedding x))

/-- The row with the name of its file. -/
def ftsHit (x : φ × Nat) : ChunkRow × String := (P.chunkRow x, C.filename x.1)

/-- The matching chunks in the order of `_FTS_SQL`. -/
def ftsOrder (q : String) : List (φ × Nat) :=
  (ftsMatches C G q).insertionSort fun x y ↦
    toLex (ftsKey C G q x, P.chunkId x) ≤ toLex (ftsKey C G q y, P.chunkId y)

/-- Its collection. -/
def collection : Collection := ⟨none, C.chunks.map P.vectorRow⟩

/-- What `retrieve` sees of the project. -/
def world [DecidableEq φ] : World ε where
  chunks := C.chunks.map P.chunkRow
  filename i := (C.chunks.find? fun x ↦ P.fileId x.1 = i).map fun x ↦ C.filename x.1
  clientError := none
  collection _ := .ok P.collection
  embedOne := G.embedOne
  nearest c e := .ok (((P.ranking e).map (P.vectorHit e)).filter fun x ↦ x.1 ∈ c.vectors)
  matching _ q := .ok ((P.ftsOrder q).map P.chunkRow)
  filterError _ := none
  provenanceError _ := none
  rerank := none
  sigmoid := id
  header _ := ""
  nearest_mem := by
    intro c e l hl x hx
    cases hl
    simpa using (List.mem_filter.mp hx).2
  matching_mem := by
    intro p q l hl r hr
    cases hl
    obtain ⟨x, hx, rfl⟩ := List.mem_map.mp hr
    exact List.mem_map_of_mem (List.mem_filter.mp ((List.mem_insertionSort _).mp hx)).1

end

end Project

/-- What an answer says of a chunk, apart from its id. -/
structure Shown where
  source : String
  chunkIndex : Nat
  text : String
  score : Rat
deriving DecidableEq

def shown (c : RetrievedChunk) : Shown := ⟨c.source, c.chunkIndex, c.text, c.score⟩

/-- What `retrieve` returns for a project, apart from the ids. -/
def Project.answer [DecidableEq φ] {C : Corpus φ ε} {G : Engine ε} (P : Project C G) (S : Settings)
    (queries : List String) (topK : Option Nat) : Except Exc (List Shown) :=
  (retrieve S P.world "project" queries topK none).map (List.map shown)

end Adapta.Rag
