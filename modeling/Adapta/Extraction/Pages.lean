import Mathlib.Data.List.Sort
import Adapta.Documents.Structured
import Adapta.Lib.Mirror
import Adapta.Reembed.Stores

/-!
# Reading the pages of a file again

`extract_file` of `adapta/services/extraction.py`: the pages of an indexed file are read one
after the other by a vision model, which fills the fields of the page's chunks; the chunks of a
flagged page are replaced by those of its transcription.  The chunk rows are in a transaction
of Postgres, and the vectors in Chroma, where each call has its effect at once.

Any call to a store may raise, which ends the job; such a call has had no effect.

## What is abstracted

* A page's rendering and the calls of the model: they time out, fail, or yield the parsed
  fields and the transcription.
* The embeddings, and of a row the columns that neither this job nor the mirror reads.
-/

namespace Adapta.Extraction

open Lib Documents
open Reembed (FileId ChunkId chunkId)

/-- `ProjectChunk`, with fields of type `φ`. -/
structure Row (φ : Type) where
  id : ChunkId
  fileId : FileId
  chunkIndex : Nat
  page : Option Int
  sectionPath : Option Str
  text : Str
  ocr : Bool
  ocrConfidence : Option Rat
  needsReview : Bool
  fields : Option φ
deriving DecidableEq

/-- An entry of the project's Chroma collection. -/
structure Entry where
  id : ChunkId
  document : Str
  source : Str
  chunkIndex : Nat
  fileId : FileId
deriving DecidableEq

/-- The chunk rows that are committed, and the entries of the collection. -/
structure Stores (φ : Type) where
  rows : List (Row φ)
  vectors : List Entry

structure Settings where
  defaults : Defaults
  ocrReviewThreshold : Rat
  extractMaxPages : Nat

variable {φ : Type} (cfg : Settings) (f : FileId) (filename : Str)

namespace Stores

variable (st : Stores φ)

def fileRows : List (Row φ) := st.rows.filter fun r ↦ r.fileId = f

def fileVectors : List Entry := st.vectors.filter fun e ↦ e.fileId = f

/-- The `SELECT` of a page's chunks, by their indexes. -/
def pageRows (page : Int) : List (Row φ) :=
  ((st.fileRows f).filter fun r ↦ r.page = some page).insertionSort
    fun r r' ↦ r.chunkIndex ≤ r'.chunkIndex

/-- The largest chunk index of the file, or zero. -/
def maxIdx : Nat := ((st.fileRows f).map Row.chunkIndex).foldr max 0

end Stores

/-! ## Chunks of a transcription -/

/-- `_needs_review`. -/
def needsReview (c : PageChunk) : Bool :=
  c.ocr && c.ocrConfidence.any (· < cfg.ocrReviewThreshold)

/-- `build_chunk_rows`, with the fields that are set on the rows. -/
def buildChunkRows (fields : Option φ) (chunks : List PageChunk) : List (Row φ) :=
  chunks.map fun c ↦
    { id := chunkId f c.index
      fileId := f
      chunkIndex := c.index
      page := c.page
      sectionPath := c.sectionPath
      text := c.text
      ocr := c.ocr
      ocrConfidence := c.ocrConfidence
      needsReview := needsReview cfg c
      fields := fields }

/-- What `index_chunks` upserts. -/
def indexEntries (chunks : List PageChunk) : List Entry :=
  chunks.map fun c ↦ ⟨chunkId f c.index, c.text, c.source, c.index, f⟩

/-- `collection.upsert`. -/
def upsertEntries (vectors es : List Entry) : List Entry :=
  vectors.filter (fun e ↦ e.id ∉ es.map Entry.id) ++ es

/-- `collection.delete(ids=…)`. -/
def deleteEntries (vectors : List Entry) (ids : List ChunkId) : List Entry :=
  vectors.filter fun e ↦ e.id ∉ ids

/-- `" ".join(reply.split())`. -/
def squeeze (reply : Str) : Str := strip (collapse reply)

/-- The pieces of a transcription, which `chunk_text` cuts with the configured sizes. -/
def piecesOf (text : Str) : List Str :=
  (chunkText cfg.defaults text filename none none).map fun x ↦ x.2.text

/-- The index of the `k`-th piece: the old chunks' first, then new ones past the largest. -/
def indexOf (old : List (Row φ)) (maxIdx k : Nat) : Nat :=
  match old[k]? with
  | some r => r.chunkIndex
  | none => maxIdx + 1 + (k - old.length)

/-- The chunks that replace the old ones of a page. -/
def newChunks (page : Int) (old : List (Row φ)) (maxIdx : Nat) (text : Str) : List PageChunk :=
  (piecesOf cfg filename text).zipIdx.map fun x ↦
    { text := x.1
      source := filename
      index := indexOf old maxIdx x.2
      page := some page
      sectionPath := old.head?.bind Row.sectionPath
      ocr := true
      ocrConfidence := none }

/-- The ids of old chunks that no new chunk has. -/
def surplusIds (old : List (Row φ)) (new : List PageChunk) : List ChunkId :=
  (old.map Row.id).filter fun i ↦ i ∉ new.map fun c ↦ chunkId f c.index

/-! ## A page -/

/-- The calls to the stores that are made for a page. -/
inductive Call where
  | selectOld
  | selectMaxIdx
  /-- The `DELETE` of the old rows, and its flush. -/
  | deleteOld
  /-- `index_chunks`. -/
  | upsert
  /-- `delete_chunk_ids`. -/
  | deleteSurplus
  /-- The `UPDATE` of the fields. -/
  | updateFields
  /-- The flush of the new rows, and the commit. -/
  | commit
deriving DecidableEq, Repr

inductive PageEnd where
  /-- The page has no chunks. -/
  | absent
  | done (reread : Bool)
  | raised (call : Call)
deriving DecidableEq, Repr

variable (fails : Call → Bool) (page : Int) (fields : Option φ)

/-- A page with a transcription: its chunks are replaced. -/
def replacePage (old : List (Row φ)) (text : Str) (st : Stores φ) : Stores φ × PageEnd :=
  let new := newChunks cfg filename page old (st.maxIdx f) text
  let surplus := surplusIds f old new
  let rows := st.rows.filter (fun r ↦ r.id ∉ old.map Row.id) ++ buildChunkRows cfg f fields new
  let upserted := upsertEntries st.vectors (indexEntries f new)
  if fails .selectMaxIdx then (st, .raised .selectMaxIdx)
  else if fails .deleteOld then (st, .raised .deleteOld)
  else if fails .upsert then (st, .raised .upsert)
  else if surplus ≠ [] ∧ fails .deleteSurplus then
    -- the session rolls back, Chroma keeps what was upserted
    ({ st with vectors := upserted }, .raised .deleteSurplus)
  else if fails .commit then
    ({ st with vectors := deleteEntries upserted surplus }, .raised .commit)
  else ({ rows := rows, vectors := deleteEntries upserted surplus }, .done true)

/-- A page without one: its fields are set, if there are any. -/
def fillPage (st : Stores φ) : Stores φ × PageEnd :=
  if fields.isSome ∧ fails .updateFields then (st, .raised .updateFields)
  else if fails .commit then (st, .raised .commit)
  else
    ({ st with
        rows := st.rows.map fun r ↦
          if fields.isSome ∧ r.fileId = f ∧ r.page = some page then { r with fields := fields }
          else r },
      .done false)

/-- The session of a page that has been read. -/
def processPage (text : Str) (st : Stores φ) : Stores φ × PageEnd :=
  if fails .selectOld then (st, .raised .selectOld)
  else if st.pageRows f page = [] then (st, .absent)
  else if text ≠ [] then replacePage cfg f filename fails page fields (st.pageRows f page) text st
  else fillPage f fails page fields st

/-! ## The job -/

/-- What comes of the model calls for a page. -/
inductive Reading (φ : Type) where
  | timeout
  | failed
  /-- The fields of the first reply, and the second reply, which is asked for a flagged page. -/
  | replies (fields : Option φ) (transcription : Str)

/-- How the loop over the pages ends. -/
inductive End (φ : Type) where
  | finished (done reread : Nat)
  | timeout (page : Int)
  /-- A call for a page raised; the stores were as given when the page was taken. -/
  | storeRaised (page : Int) (call : Call) (before : Stores φ)

/-- The text for a page: a transcription only if it is flagged. -/
def textOf (flagged : List (Option Int)) (page : Int) (transcription : Str) : Str :=
  if some page ∈ flagged then squeeze transcription else []

/-- The loop over the pages. -/
def runPages (flagged : List (Option Int)) (readings : Int → Reading φ)
    (fails : Int → Call → Bool) : List Int → Stores φ → Nat → Nat → Stores φ × End φ
  | [], st, done, reread => (st, .finished done reread)
  | page :: pages, st, done, reread =>
      match readings page with
      | .timeout => (st, .timeout page)
      | .failed => runPages flagged readings fails pages st done reread
      | .replies fields transcription =>
          let out := processPage cfg f filename (fails page) page fields
            (textOf flagged page transcription) st
          match out.2 with
          | .absent => runPages flagged readings fails pages out.1 done reread
          | .done again =>
              runPages flagged readings fails pages out.1 (done + 1)
                (if again then reread + 1 else reread)
          | .raised call => (out.1, .storeRaised page call st)

/-- `select_pages`. -/
def selectPages (rows : List (Row φ)) (allPages : Bool) : List Int :=
  ((rows.filter fun r ↦ allPages || r.needsReview).filterMap Row.page).dedup.insertionSort (· ≤ ·)

/-- The pages of which a chunk is flagged. -/
def flaggedPages (rows : List (Row φ)) : List (Option Int) :=
  (rows.filter Row.needsReview).map Row.page

inductive Result (φ : Type) where
  | returned (done reread : Nat)
  /-- A `DomainError` with its message. -/
  | error (message : String)
  | timeout (page : Int)
  | storeRaised (page : Int) (call : Call) (before : Stores φ)

def tooManyPages (n limit : Nat) : String :=
  toString n ++ " pages exceed the " ++ toString limit ++ "-page limit per job."

def everyPageFailed : String :=
  "Visual extraction failed on every page. Check that the vision model is available."

/-- `extract_file`.  The first session finds the file's name, or raises. -/
def extractFile (lookup : Except String Str) (allPages : Bool) (readings : Int → Reading φ)
    (fails : Int → Call → Bool) (st : Stores φ) : Stores φ × Result φ :=
  match lookup with
  | .error message => (st, .error message)
  | .ok filename =>
      let pages := selectPages (st.fileRows f) allPages
      if cfg.extractMaxPages < pages.length then
        (st, .error (tooManyPages pages.length cfg.extractMaxPages))
      else
        let out := runPages cfg f filename (flaggedPages (st.fileRows f)) readings fails pages st
          0 0
        match out.2 with
        | .finished done reread =>
            (out.1, if pages ≠ [] ∧ done = 0 then .error everyPageFailed else .returned done reread)
        | .timeout page => (out.1, .timeout page)
        | .storeRaised page call before => (out.1, .storeRaised page call before)

end Adapta.Extraction
