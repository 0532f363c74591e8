import Mathlib.Algebra.Order.Ring.Unbundled.Rat
import Mathlib.Data.Rat.Defs

/-!
# Retrieval filters

`RetrievalFilters` of `adapta/services/rag.py`: what a request may restrict retrieval to, and
the SQL fragment the restriction becomes.  The fragment is a list of `Clause`s, each with its
text, its parameters and what it says of a row; a comparison with `NULL` is not true.

An empty list of files is no restriction.  The request model does not admit one, and the
handler passes `None` for it.
-/

namespace Adapta.Rag

abbrev ProjectId := String
abbrev FileId := String
abbrev ChunkId := String

/-- A row of `chunks`. -/
structure ChunkRow where
  id : ChunkId
  project : ProjectId
  file : FileId
  chunkIndex : Nat
  text : String
  page : Option Int
  ocr : Bool
  ocrConfidence : Option Rat
  needsReview : Bool
  /-- The extracted fields that are not null, with their values as text. -/
  fields : List (String × String)
deriving DecidableEq

structure RetrievalFilters where
  fileIds : Option (List FileId)
  pageMin : Option Int
  pageMax : Option Int
  needsReview : Option Bool
  /-- Keys and values as `str` gives them. -/
  fields : Option (List (String × String))
deriving DecidableEq, Repr

/-- A parameter of a statement. -/
inductive SqlValue where
  | texts (l : List String)
  | int (n : Int)
  | bool (b : Bool)
  | text (s : String)
deriving DecidableEq, Repr

/-- One condition of the fragment. -/
inductive Clause where
  | fileId (ids : List FileId)
  | pageMin (n : Int)
  | pageMax (n : Int)
  | needsReview (b : Bool)
  /-- The `i`-th field. -/
  | field (i : Nat) (key value : String)
deriving DecidableEq, Repr

namespace Clause

def sql : Clause → String
  | .fileId _ => "c.file_id = ANY(:f_file_ids)"
  | .pageMin _ => "c.page >= :f_page_min"
  | .pageMax _ => "c.page <= :f_page_max"
  | .needsReview _ => "c.needs_review = :f_needs_review"
  | .field i _ _ => "c.fields ->> :f_fk" ++ toString i ++ " = :f_fv" ++ toString i

def params : Clause → List (String × SqlValue)
  | .fileId ids => [("f_file_ids", .texts ids)]
  | .pageMin n => [("f_page_min", .int n)]
  | .pageMax n => [("f_page_max", .int n)]
  | .needsReview b => [("f_needs_review", .bool b)]
  | .field i key value => [("f_fk" ++ toString i, .text key), ("f_fv" ++ toString i, .text value)]

/-- What the condition says of a row. -/
def holds (r : ChunkRow) : Clause → Bool
  | .fileId ids => r.file ∈ ids
  | .pageMin n => r.page.any (n ≤ ·)
  | .pageMax n => r.page.any (· ≤ n)
  | .needsReview b => r.needsReview = b
  | .field _ key value => r.fields.lookup key = some value

end Clause

namespace RetrievalFilters

variable (f : RetrievalFilters)

/-- Filters Chroma metadata cannot express. -/
def sqlOnly : Bool :=
  f.pageMin.isSome || f.pageMax.isSome || f.needsReview.isSome || f.fields.any (· ≠ [])

/-- The conditions, in the order of the fragment. -/
def clauses : List Clause :=
  (f.fileIds.filter (· ≠ [])).toList.map .fileId ++ f.pageMin.toList.map .pageMin ++
    f.pageMax.toList.map .pageMax ++ f.needsReview.toList.map .needsReview ++
    (f.fields.getD []).zipIdx.map fun x ↦ .field x.2 x.1.1 x.1.2

/-- `sql_clauses`: the fragment and its parameters. -/
def sqlClauses : String × List (String × SqlValue) :=
  (String.join (f.clauses.map fun c ↦ " AND " ++ c.sql), f.clauses.flatMap Clause.params)

/-- The row passes the fragment. -/
def admits (r : ChunkRow) : Bool := f.clauses.all fun c ↦ c.holds r

/-! ## What a filter asks for -/

/-- The file passes the filter on files, if that is set. -/
def FileOk (file : FileId) : Prop := ∀ ids, f.fileIds = some ids → ids ≠ [] → file ∈ ids

/-- The row passes the other filters that are set. -/
structure RowOk (r : ChunkRow) : Prop where
  pageMin : ∀ n, f.pageMin = some n → ∃ p, r.page = some p ∧ n ≤ p
  pageMax : ∀ n, f.pageMax = some n → ∃ p, r.page = some p ∧ p ≤ n
  needsReview : ∀ b, f.needsReview = some b → r.needsReview = b
  fields : ∀ l, f.fields = some l → ∀ x ∈ l, r.fields.lookup x.1 = some x.2

variable {f} {r : ChunkRow}

theorem holds_of_admits {c : Clause} (h : f.admits r) (hc : c ∈ f.clauses) : c.holds r :=
  List.all_eq_true.mp h c hc

theorem fileOk_of_admits (h : f.admits r) : f.FileOk r.file := by
  intro ids hids hne
  have hc : Clause.fileId ids ∈ f.clauses := by simp [clauses, hids, hne]
  simpa [Clause.holds] using holds_of_admits h hc

theorem rowOk_of_admits (h : f.admits r) : f.RowOk r where
  pageMin n hn := by
    have hc : Clause.pageMin n ∈ f.clauses := by simp [clauses, hn]
    simpa [Clause.holds, Option.any_eq_true] using holds_of_admits h hc
  pageMax n hn := by
    have hc : Clause.pageMax n ∈ f.clauses := by simp [clauses, hn]
    simpa [Clause.holds, Option.any_eq_true] using holds_of_admits h hc
  needsReview b hb := by
    have hc : Clause.needsReview b ∈ f.clauses := by simp [clauses, hb]
    simpa [Clause.holds] using holds_of_admits h hc
  fields l hl x hx := by
    obtain ⟨i, hi, rfl⟩ := List.getElem_of_mem hx
    have hc : Clause.field i l[i].1 l[i].2 ∈ f.clauses := by
      simp only [clauses, hl, Option.getD_some, List.mem_append, List.mem_map]
      exact .inr ⟨(l[i], i), by simp [List.mem_zipIdx_iff_getElem?, hi], rfl⟩
    simpa [Clause.holds] using holds_of_admits h hc

end RetrievalFilters

end Adapta.Rag
