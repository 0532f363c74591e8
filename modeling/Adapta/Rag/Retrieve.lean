import Mathlib.Algebra.Order.Ring.Rat
import Mathlib.Data.List.AList
import Mathlib.Data.List.Sort
import Mathlib.Data.Prod.Lex
import Mathlib.Data.String.Basic
import Mathlib.Order.WithBot
import Adapta.Lib.Rounding
import Adapta.Rag.Filters

/-!
# Hybrid retrieval

`RAGService.retrieve` of `adapta/services/rag.py`: for each query a list of vector hits and a
list of full-text hits, one rank fusion over all the lists, an optional reranker over the best
candidates, and the provenance of those that are returned.

What the stores contain and how they rank it is a `World`.  The SQL conditions and Chroma's
`where` are applied here, to the rows the world ranks; which rows match a text, and in which
order, is the world's.  Any call may raise, with any exception.

## What is abstracted

* Scores and distances are rationals.  The sigmoid of a reranker's score is a parameter.
* The time a call takes, the metrics and the log line.
* A chunk's id is a text, as the code takes it; `{file_id}_{index}` is only built elsewhere.
-/

namespace Adapta.Rag

open Lib

/-- An exception. -/
inductive Exc where
  | sqlAlchemy
  | os
  | timeout
  /-- A `DomainError` with its message. -/
  | domain (message : String)
  | other
deriving DecidableEq, Repr

/-- One of those the full-text leg and the provenance lookup degrade on. -/
def Exc.degrades : Exc → Bool
  | .sqlAlchemy | .os | .timeout => true
  | .domain _ | .other => false

/-! ## The stores -/

/-- An entry of a Chroma collection, with its metadata. -/
structure VectorRow where
  id : ChunkId
  file : FileId
  source : Option String
  chunkIndex : Option Nat
  document : String
deriving DecidableEq, Repr

structure Collection where
  /-- The recorded embedding model. -/
  embeddingModel : Option String
  vectors : List VectorRow

/-- The contents of the stores, and the calls that read them.  Embeddings are of type `ε`. -/
structure World (ε : Type) where
  chunks : List ChunkRow
  /-- The name of a row of `project_files`. -/
  filename : FileId → Option String
  /-- `_client` raises. -/
  clientError : Option Exc
  /-- `get_collection` of a project's collection. -/
  collection : ProjectId → Except Exc Collection
  embedOne : String → Except Exc ε
  /-- The entries of a collection in the order of a query's answer, with their distances. -/
  nearest : Collection → ε → Except Exc (List (VectorRow × Rat))
  /-- The chunks of a project that a text matches, best first. -/
  matching : ProjectId → String → Except Exc (List ChunkRow)
  /-- The `SELECT` of `_filter_vector_ids` raises. -/
  filterError : List ChunkId → Option Exc
  /-- The `SELECT` of `_hydrate_provenance` raises. -/
  provenanceError : List ChunkId → Option Exc
  /-- The cross-encoder, if one is configured. -/
  rerank : Option (String → List String → Except Exc (List Rat))
  sigmoid : Rat → Rat
  /-- `_header_of` a row and its project's schema. -/
  header : ChunkRow → String
  nearest_mem : ∀ c e l, nearest c e = .ok l → ∀ x ∈ l, x.1 ∈ c.vectors
  matching_mem : ∀ p q l, matching p q = .ok l → ∀ r ∈ l, r ∈ chunks

structure Settings where
  ragTopK : Nat
  ragHybridFetchMultiplier : Nat
  ragSparseFetchMultiplier : Nat
  embeddingModel : String

inductive ScoreKind where
  | reranker
  | vector
deriving DecidableEq, Repr

structure RetrievedChunk where
  text : String
  source : String
  score : Rat
  chunkIndex : Nat
  scoreKind : ScoreKind
  chunkId : ChunkId
  fileId : Option FileId
  page : Option Int
  ocr : Bool
  ocrConfidence : Option Rat
  lexicalOnly : Bool
  fieldsHeader : String
deriving DecidableEq

/-! ## Rank fusion -/

section Fusion

variable {ι κ : Type*} [LinearOrder ι] [LinearOrder κ]

/-- What each place of each list contributes. -/
def contributions (k : Nat) (lists : List (List ι)) : List (ι × Rat) :=
  lists.flatMap fun ranks ↦ ranks.zipIdx.map fun x ↦ (x.1, 1 / (k + x.2 + 1 : Rat))

/-- The fused score of an id. -/
def rrfScore (k : Nat) (lists : List (List ι)) (i : ι) : Rat :=
  (((contributions k lists).filter fun x ↦ x.1 = i).map Prod.snd).sum

/-- The sort key of an id: the rounded score, descending, then the tie key (ids without one
come first), then the id. -/
def rrfKey (k : Nat) (tieKey : ι → WithBot κ) (lists : List (List ι)) (i : ι) :
    Rat ×ₗ WithBot κ ×ₗ ι :=
  toLex (-roundTo (rrfScore k lists i) 12, toLex (tieKey i, i))

/-- `_rrf_fuse`. -/
def rrfFuse (k : Nat) (tieKey : ι → WithBot κ) (lists : List (List ι)) : List ι :=
  lists.flatten.dedup.insertionSort fun i j ↦
    rrfKey k tieKey lists i ≤ rrfKey k tieKey lists j

end Fusion

/-- The default of `_rrf_fuse`. -/
def rrfK : Nat := 60

/-! ## The legs -/

section

variable {ε : Type} (S : Settings) (w : World ε) (p : ProjectId)

/-- `_chunk_tie_key`. -/
def chunkTieKey (source : String) (chunkIndex : Nat) : String ×ₗ Nat := toLex (source, chunkIndex)

/-- The key by which equal distances are ordered. -/
def vectorKey (x : VectorRow × Rat) : Rat ×ₗ String ×ₗ Nat :=
  toLex (x.2, chunkTieKey (x.1.source.getD "") (x.1.chunkIndex.getD 0))

/-- `_filter_vector_ids`. -/
def filterVectorIds (ids : List ChunkId) (f : RetrievalFilters) : Except Exc (List ChunkId) :=
  if ids = [] then .ok []
  else
    match w.filterError ids with
    | some e => .error e
    | none => .ok ((w.chunks.filter fun r ↦ r.id ∈ ids ∧ f.admits r).map ChunkRow.id)

/-- `collection.query`, with the `where` of the filters. -/
def chromaQuery (c : Collection) (e : ε) (n : Nat) (within : Option (List FileId)) :
    Except Exc (List (VectorRow × Rat)) :=
  (w.nearest c e).map fun l ↦ (l.filter fun x ↦ within.all fun ids ↦ x.1.file ∈ ids).take n

/-- The restriction of the query to files. -/
def whereOf (f : Option RetrievalFilters) : Option (List FileId) :=
  f.bind fun f ↦ f.fileIds.filter (· ≠ [])

/-- The vector leg of one query. -/
def vectorLeg (c : Collection) (fetchK : Nat) (f : Option RetrievalFilters) (q : String) :
    Except Exc (List (VectorRow × Rat)) := do
  let e ← w.embedOne q
  let results ← chromaQuery w c e fetchK (whereOf f)
  let ordered := results.insertionSort fun x y ↦ vectorKey x ≤ vectorKey y
  match f with
  | some f =>
      if f.sqlOnly then do
        let keep ← filterVectorIds w (ordered.map fun x ↦ x.1.id) f
        pure (ordered.filter fun x ↦ x.1.id ∈ keep)
      else pure ordered
  | none => pure ordered

/-- `_fts_search`: a row whose file is gone has no name and is not joined. -/
def ftsSearch (q : String) (limit : Nat) (f : Option RetrievalFilters) :
    Except Exc (List (ChunkRow × String)) :=
  (w.matching p q).map fun rows ↦
    ((rows.filter fun r ↦ r.project = p ∧ f.all fun f ↦ f.admits r).filterMap fun r ↦
      (w.filename r.file).map fun name ↦ (r, name)).take limit

/-- The full-text leg of one query, which degrades to no hits. -/
def ftsLeg (topK : Nat) (f : Option RetrievalFilters) (q : String) :
    Except Exc (List (ChunkRow × String)) :=
  match ftsSearch w p q (topK * S.ragSparseFetchMultiplier) f with
  | .ok hits => .ok hits
  | .error e => if e.degrades then .ok [] else .error e

/-! ## The loop over the queries -/

/-- The candidates and the ranked lists. -/
structure Acc where
  byId : AList fun _ : ChunkId ↦ RetrievedChunk
  vecLists : List (List ChunkId)
  ftsLists : List (List ChunkId)

def Acc.empty : Acc := ⟨∅, [], []⟩

/-- The candidate of a vector hit. -/
def ofVector (x : VectorRow × Rat) : RetrievedChunk :=
  { text := x.1.document
    source := x.1.source.getD "unknown"
    score := 1 - x.2
    chunkIndex := x.1.chunkIndex.getD 0
    scoreKind := .vector
    chunkId := x.1.id
    fileId := none, page := none, ocr := false, ocrConfidence := none
    lexicalOnly := false
    fieldsHeader := "" }

/-- The candidate of a full-text hit. -/
def ofFts (x : ChunkRow × String) : RetrievedChunk :=
  { text := x.1.text
    source := x.2
    score := 0
    chunkIndex := x.1.chunkIndex
    scoreKind := .vector
    chunkId := x.1.id
    fileId := none, page := none, ocr := false, ocrConfidence := none
    lexicalOnly := true
    fieldsHeader := "" }

/-- A vector hit keeps the better score. -/
def addVector (byId : AList fun _ : ChunkId ↦ RetrievedChunk) (x : VectorRow × Rat) :
    AList fun _ : ChunkId ↦ RetrievedChunk :=
  match byId.lookup x.1.id with
  | none => byId.insert x.1.id (ofVector x)
  | some prev => if prev.score < 1 - x.2 then byId.insert x.1.id (ofVector x) else byId

/-- A full-text hit is a candidate if there is none of its id. -/
def addFts (byId : AList fun _ : ChunkId ↦ RetrievedChunk) (x : ChunkRow × String) :
    AList fun _ : ChunkId ↦ RetrievedChunk :=
  match byId.lookup x.1.id with
  | none => byId.insert x.1.id (ofFts x)
  | some _ => byId

/-- The body of the loop. -/
def addQuery (c : Collection) (topK fetchK : Nat) (f : Option RetrievalFilters) (acc : Acc)
    (q : String) : Except Exc Acc := do
  let vec ← vectorLeg w c fetchK f q
  let fts ← ftsLeg S w p topK f q
  pure
    { byId := fts.foldl addFts (vec.foldl addVector acc.byId)
      vecLists := acc.vecLists ++ [vec.map fun x ↦ x.1.id]
      ftsLists := acc.ftsLists ++ [fts.map fun x ↦ x.1.id] }

/-! ## The answer -/

/-- The fused ids, best first. -/
def Acc.fusedIds (acc : Acc) : List ChunkId :=
  rrfFuse rrfK
    (fun i ↦ (acc.byId.lookup i).map fun c ↦ chunkTieKey c.source c.chunkIndex)
    (acc.vecLists ++ acc.ftsLists)

/-- The candidates, best first. -/
def Acc.candidates (acc : Acc) : List RetrievedChunk := acc.fusedIds.filterMap acc.byId.lookup

/-- The reranker's verdict on a candidate. -/
def reranked (x : Rat × RetrievedChunk) : RetrievedChunk :=
  { text := x.2.text
    source := x.2.source
    score := roundTo (w.sigmoid x.1) 4
    chunkIndex := x.2.chunkIndex
    scoreKind := .reranker
    chunkId := x.2.chunkId
    fileId := none, page := none, ocr := false, ocrConfidence := none
    lexicalOnly := false
    fieldsHeader := "" }

/-- The reranker orders the best candidates anew. -/
def rerankStage (topK : Nat) (q : String) (candidates : List RetrievedChunk) :
    Except Exc (List RetrievedChunk) :=
  match w.rerank with
  | none => pure candidates
  | some rerank =>
      if candidates.length ≤ 1 then pure candidates
      else do
        let n := min (topK * 2) candidates.length
        let scores ← rerank q ((candidates.take n).map RetrievedChunk.text)
        let ranked := (scores.zip (candidates.take n)).insertionSort fun x y ↦ y.1 ≤ x.1
        pure (ranked.map (reranked w) ++ candidates.drop n)

/-- The provenance of a chunk that has a row. -/
def withRow (c : RetrievedChunk) (r : ChunkRow) : RetrievedChunk :=
  { c with
    fileId := some r.file
    page := r.page
    ocr := r.ocr
    ocrConfidence := r.ocrConfidence
    fieldsHeader := w.header r }

/-- `_hydrate_provenance`. -/
def hydrateProvenance (chunks : List RetrievedChunk) : Except Exc (List RetrievedChunk) :=
  let ids := (chunks.map RetrievedChunk.chunkId).filter (· ≠ "")
  if ids = [] then pure chunks
  else
    match w.provenanceError ids with
    | some e => if e.degrades then pure chunks else .error e
    | none => pure (chunks.map fun c ↦
        match w.chunks.find? fun r ↦ r.id = c.chunkId ∧ r.id ∈ ids with
        | some r => withRow w c r
        | none => c)

def embeddingMismatch (stored configured : String) : String :=
  "This project's documents were indexed with '" ++ stored ++
    "' but the server is now configured for '" ++ configured ++
    "'. Re-index the project's files, or restore ADAPTA_EMBEDDING_MODEL=" ++ stored ++ "."

/-- The number of vector candidates to fetch. -/
def fetchCount (topK : Nat) (f : Option RetrievalFilters) : Nat :=
  let fetchK := max (topK * S.ragHybridFetchMultiplier) (topK + 1)
  if f.any RetrievalFilters.sqlOnly then fetchK * 4 else fetchK

/-- The collection was built with another embedding model. -/
def mismatch (c : Collection) : Option String :=
  c.embeddingModel.filter fun m ↦ m ≠ "" ∧ m ≠ S.embeddingModel

/-- `retrieve`. -/
def retrieve (queries : List String) (topK : Option Nat) (f : Option RetrievalFilters) :
    Except Exc (List RetrievedChunk) :=
  let topK := (topK.filter (· ≠ 0)).getD S.ragTopK
  match w.clientError, w.collection p with
  | some e, _ => .error e
  | none, .error _ => pure []
  | none, .ok c =>
      match mismatch S c with
      | some stored => .error (.domain (embeddingMismatch stored S.embeddingModel))
      | none => do
          let acc ← queries.foldlM (addQuery S w p c topK (fetchCount S topK f) f) .empty
          if acc.byId.entries = [] then pure []
          else do
            let candidates ← rerankStage w topK (queries.headD "") acc.candidates
            hydrateProvenance w (candidates.take topK)

end

end Adapta.Rag
