import Mathlib.Data.List.Flatten
import Mathlib.Data.List.Nodup
import Adapta.Lib.Binds
import Adapta.Rag.Filters

/-!
# The statements of a filtered retrieval

`_fts_search` and `_filter_vector_ids` of `adapta/services/rag.py` put the fragment of
`sql_clauses` into statements with parameters of their own.  The fragment depends only on which
filters are set and on the number of fields: this is the `Shape` of a filter, and no value is a
part of a text.
-/

namespace Adapta.Rag

open Lib

/-! ## The source -/

/-- An argument of a statement: one of the filters, or a number of the settings. -/
abbrev Argument := SqlValue ⊕ Rat

/-- `_FTS_SQL` before its placeholder. -/
def ftsHead : List String :=
  ["WITH lex AS (",
    "  SELECT l, CAST(quote_literal(l) AS tsquery) AS tq",
    "  FROM unnest(tsvector_to_array(to_tsvector(CAST(:cfg AS regconfig), :q))) AS l",
    "),",
    "n AS (SELECT count(*) AS n FROM chunks WHERE project_id = :p),",
    "df AS (",
    "  SELECT lex.tq,",
    "         (SELECT count(*) FROM chunks c WHERE c.project_id = :p AND c.tsv @@ lex.tq) AS df",
    "  FROM lex",
    "),",
    "w AS (",
    "  SELECT df.tq, ln((n.n - df.df + 0.5) / (df.df + 0.5) + 1) AS idf",
    "  FROM df, n",
    "  WHERE df.df > 0 AND df.df <= GREATEST(:max_df * n.n, 3)",
    ")",
    "SELECT c.id, c.text, c.chunk_index, f.filename",
    "FROM w",
    "JOIN chunks c ON c.project_id = :p AND c.tsv @@ w.tq"]

/-- `_FTS_SQL` after it. -/
def ftsTail : List String :=
  ["JOIN project_files f ON f.id = c.file_id",
    "GROUP BY c.id, c.text, c.chunk_index, f.filename",
    "ORDER BY round(CAST(sum(w.idf) AS numeric), 9) DESC, f.filename, c.chunk_index, " ++
      "c.content_hash, c.id",
    "LIMIT :n",
    ""]

/-- Lines, each after a line break. -/
def lines (l : List String) : String := String.join (l.map ("\n" ++ ·))

/-- `_FTS_SQL` with its placeholder filled in. -/
def ftsSql (filters : String) : String := lines ftsHead ++ filters ++ lines ftsTail

/-- The parameters that `_fts_search` adds. -/
def ftsArgs (projectId cfg query : String) (limit : Int) (maxDf : Rat) :
    List (String × Argument) :=
  [("p", .inl (.text projectId)), ("cfg", .inl (.text cfg)), ("q", .inl (.text query)),
    ("n", .inl (.int limit)), ("max_df", .inr maxDf)]

/-- What `_fts_search` executes. -/
def ftsStatement (projectId cfg query : String) (limit : Int) (maxDf : Rat)
    (filters : Option RetrievalFilters) : String × List (String × Argument) :=
  let (filterSql, filterParams) := filters.elim ("", []) RetrievalFilters.sqlClauses
  (ftsSql filterSql,
    filterParams.map (Prod.map id .inl) ++ ftsArgs projectId cfg query limit maxDf)

/-- The parameter that `_filter_vector_ids` adds. -/
def vectorIdsArgs (ids : List ChunkId) : List (String × Argument) := [("ids", .inl (.texts ids))]

/-- The statement of `_filter_vector_ids` up to the fragment. -/
def vectorIdsHead : String := "SELECT c.id FROM chunks c WHERE c.id = ANY(:ids)"

/-- What `_filter_vector_ids` executes; it returns at once if there are no ids. -/
def vectorIdsStatement (ids : List ChunkId) (filters : RetrievalFilters) :
    Option (String × List (String × Argument)) :=
  if ids = [] then none
  else
    let (clause, params) := filters.sqlClauses
    some (vectorIdsHead ++ clause,
      vectorIdsArgs ids ++ params.map (Prod.map id .inl))

/-! ## Shapes -/

/-- Which filters are set, and how many fields there are.  As in the source, no files and no
fields are no filter. -/
structure Shape where
  fileIds : Bool
  pageMin : Bool
  pageMax : Bool
  needsReview : Bool
  fields : Nat
deriving DecidableEq, Repr

def RetrievalFilters.shape (f : RetrievalFilters) : Shape where
  fileIds := f.fileIds.any (· ≠ [])
  pageMin := f.pageMin.isSome
  pageMax := f.pageMax.isSome
  needsReview := f.needsReview.isSome
  fields := (f.fields.getD []).length

/-- A condition without its values. -/
def Clause.erase : Clause → Clause
  | .fileId _ => .fileId []
  | .pageMin _ => .pageMin 0
  | .pageMax _ => .pageMax 0
  | .needsReview _ => .needsReview false
  | .field i _ _ => .field i "" ""

def Clause.names (c : Clause) : List String := c.params.map Prod.fst

/-- The conditions of a shape. -/
def Shape.clauses (s : Shape) : List Clause :=
  (if s.fileIds then [.fileId []] else []) ++ (if s.pageMin then [.pageMin 0] else []) ++
    (if s.pageMax then [.pageMax 0] else []) ++ (if s.needsReview then [.needsReview false] else [])
    ++ (List.range s.fields).map fun i ↦ .field i "" ""

/-- The fragment of a shape. -/
def Shape.sql (s : Shape) : String := String.join (s.clauses.map fun c ↦ " AND " ++ c.sql)

/-- Its bind names. -/
def Shape.names (s : Shape) : List String := s.clauses.flatMap Clause.names

theorem Clause.sql_erase (c : Clause) : c.erase.sql = c.sql := by
  cases c with
  | fileId _ | pageMin _ | pageMax _ | needsReview _ | field _ _ _ => rfl

theorem Clause.names_erase (c : Clause) : c.erase.names = c.names := by
  cases c with
  | fileId _ | pageMin _ | pageMax _ | needsReview _ | field _ _ _ => rfl

namespace RetrievalFilters

variable (f : RetrievalFilters)

/-- Without their values, the conditions are those of the shape. -/
theorem clauses_erase : f.clauses.map Clause.erase = f.shape.clauses := by
  have hfields : ((f.fields.getD []).zipIdx.map fun x ↦ Clause.field x.2 x.1.1 x.1.2).map
      Clause.erase = (List.range f.shape.fields).map fun i ↦ .field i "" "" := by
    have hsnd := List.zipIdx_map_snd 0 (f.fields.getD [])
    rw [← List.range_eq_range'] at hsnd
    rw [shape, ← hsnd, List.map_map, List.map_map]
    rfl
  have hfiles : ((f.fileIds.filter (· ≠ [])).toList.map Clause.fileId).map Clause.erase =
      if f.shape.fileIds then [.fileId []] else [] := by
    cases h : f.fileIds with
    | none => simp [shape, h]
    | some ids =>
        by_cases hids : ids = []
        · simp [shape, h, hids]
        · simp [shape, h, hids, Clause.erase]
  have hoption : ∀ {α : Type} (o : Option α) (mk : α → Clause) (c : Clause),
      (∀ a, (mk a).erase = c) →
        (o.toList.map mk).map Clause.erase = if o.isSome then [c] else [] := by
    intro α o mk c hmk
    cases o with
    | none => rfl
    | some a => simp [hmk]
  simp only [clauses, List.map_append]
  rw [hfiles, hoption f.pageMin _ (.pageMin 0) fun _ ↦ rfl,
    hoption f.pageMax _ (.pageMax 0) fun _ ↦ rfl,
    hoption f.needsReview _ (.needsReview false) fun _ ↦ rfl, hfields]
  rfl

theorem sql_eq_shape : f.sqlClauses.1 = f.shape.sql := by
  rw [Shape.sql, ← clauses_erase, List.map_map]
  simp only [sqlClauses, Function.comp_def, Clause.sql_erase]

theorem names_eq_shape : f.sqlClauses.2.map Prod.fst = f.shape.names := by
  rw [Shape.names, ← clauses_erase, List.flatMap_map]
  simp only [sqlClauses, List.map_flatMap, Clause.names_erase]
  rfl

end RetrievalFilters

/-! ## The names of a text -/

theorem bindNames_lines (l : List String) :
    bindNames (lines l) = l.flatMap bindNames ∧ Breaks (lines l).toList := by
  have hbreaks : Breaks "\n".toList := by
    intro c hc
    cases hc
    decide
  have hlines : ∀ a ∈ l.map ("\n" ++ ·), a ≠ "" ∧ Breaks a.toList := by
    intro a ha
    obtain ⟨b, -, rfl⟩ := List.mem_map.mp ha
    refine ⟨fun h ↦ ?_, breaks_append (by decide) hbreaks b⟩
    exact absurd (String.append_eq_empty_iff.mp h).1 (by decide)
  obtain ⟨hnames, hlast⟩ := bindNames_join hlines
  simp only [List.flatMap_map, bindNames_line] at hnames
  exact ⟨hnames, hlast⟩

theorem bindNames_ftsHead : bindNames (lines ftsHead) = ["cfg", "q", "p", "p", "max_df", "p"] := by
  rw [(bindNames_lines ftsHead).1]
  simp only [ftsHead, List.flatMap_cons, List.flatMap_nil]
  repeat rw [bindNames_ofList]
  rfl

theorem bindNames_ftsTail : bindNames (lines ftsTail) = ["n"] := by
  rw [(bindNames_lines ftsTail).1]
  simp only [ftsTail, List.flatMap_cons, List.flatMap_nil]
  rw [bindNames_ofList_append]
  repeat rw [bindNames_ofList]
  rfl

/-- The condition on a field, with its two names apart. -/
theorem field_sql (i : Nat) : " AND " ++ (Clause.field i "" "").sql =
    " AND " ++ "c.fields ->>" ++ (" :" ++ ("f_fk" ++ toString i)) ++ " =" ++
      (" :" ++ ("f_fv" ++ toString i)) := by
  have hkey : "c.fields ->> :f_fk" = "c.fields ->>" ++ (" :" ++ "f_fk") := by decide
  have hvalue : " = :f_fv" = " =" ++ (" :" ++ "f_fv") := by decide
  show " AND " ++ ("c.fields ->> :f_fk" ++ toString i ++ " = :f_fv" ++ toString i) = _
  rw [hkey, hvalue]
  simp only [String.append_assoc]

/-- A condition has the names of its parameters. -/
theorem bindNames_clause (c : Clause) : bindNames (" AND " ++ c.sql) = c.names := by
  rw [← c.sql_erase, ← c.names_erase]
  cases c with
  | fileId ids => exact bindNames_ofList_append _ _
  | pageMin n => exact bindNames_ofList_append _ _
  | pageMax n => exact bindNames_ofList_append _ _
  | needsReview b => exact bindNames_ofList_append _ _
  | field i key value =>
      have hhead : bindNames (" AND " ++ "c.fields ->>") = [] :=
        bindNames_ofList_append _ _
      have hequals : bindNames " =" = [] := bindNames_ofList _
      have hcolon : ∀ b, Breaks (" :" ++ b).toList := breaks_blank_append rfl
      show bindNames (" AND " ++ (Clause.field i "" "").sql) =
        ["f_fk" ++ toString i] ++ ["f_fv" ++ toString i]
      rw [field_sql, bindNames_append _ (hcolon _),
        bindNames_append _ (breaks_blank rfl), bindNames_append _ (hcolon _),
        bindNames_numbered rfl (by decide), bindNames_numbered rfl (by decide),
        hhead, hequals, List.append_nil]
      rfl

theorem Shape.bindNames_sql (s : Shape) : bindNames s.sql = s.names ∧ Breaks s.sql.toList := by
  have hparts : ∀ a ∈ s.clauses.map fun c ↦ " AND " ++ c.sql, a ≠ "" ∧ Breaks a.toList := by
    intro a ha
    obtain ⟨c, -, rfl⟩ := List.mem_map.mp ha
    refine ⟨fun h ↦ ?_, breaks_blank_append rfl c.sql⟩
    exact absurd (String.append_eq_empty_iff.mp h).1 (by decide)
  obtain ⟨hnames, hbreaks⟩ := bindNames_join hparts
  refine ⟨?_, hbreaks⟩
  rw [sql, hnames, List.flatMap_map]
  simp only [bindNames_clause]
  rfl

/-! ## No name is there twice -/

/-- The names of the `i`-th field. -/
def fieldNames (i : Nat) : List String := ["f_fk" ++ toString i, "f_fv" ++ toString i]

theorem nodup_fieldNames (n : Nat) : ((List.range n).flatMap fieldNames).Nodup := by
  have hapart : ∀ i j : Nat, "f_fk" ++ toString i ≠ "f_fv" ++ toString j := fun i j ↦
    append_ne 4 (by decide) (by decide) (by decide) _ _
  rw [List.nodup_flatMap]
  refine ⟨fun i _ ↦ by simp [fieldNames], ?_⟩
  refine List.nodup_range.imp fun {i j} hne ↦ ?_
  intro name hi hj
  simp only [fieldNames, List.mem_cons, List.not_mem_nil, or_false] at hi hj
  rcases hi with rfl | rfl <;> rcases hj with h | h
  · exact hne (numbered_inj h)
  · exact hapart i j h
  · exact hapart j i h.symm
  · exact hne (numbered_inj h)

/-- The names of the conditions other than those on fields. -/
def ownNames : List String := ["f_file_ids", "f_page_min", "f_page_max", "f_needs_review"]

/-- How the name of a field begins. -/
theorem take_fieldNames {n : Nat} {name : String}
    (h : name ∈ (List.range n).flatMap fieldNames) :
    name.toList.take 4 = ['f', '_', 'f', 'k'] ∨ name.toList.take 4 = ['f', '_', 'f', 'v'] := by
  obtain ⟨i, -, hi⟩ := List.mem_flatMap.mp h
  simp only [fieldNames, List.mem_cons, List.not_mem_nil, or_false] at hi
  rcases hi with rfl | rfl
  · rw [String.toList_append]
    exact .inl rfl
  · rw [String.toList_append]
    exact .inr rfl

theorem ownNames_disjoint (n : Nat) : ownNames.Disjoint ((List.range n).flatMap fieldNames) := by
  intro name hown hfield
  have hne : ∀ a ∈ ownNames, a.toList.take 4 ≠ ['f', '_', 'f', 'k'] ∧
      a.toList.take 4 ≠ ['f', '_', 'f', 'v'] := by decide
  exact (take_fieldNames hfield).elim (hne name hown).1 (hne name hown).2

theorem Shape.names_sublist (s : Shape) :
    s.names.Sublist (ownNames ++ (List.range s.fields).flatMap fieldNames) := by
  have hif : ∀ (b : Bool) (c : Clause), (if b then [c] else []).Sublist [c] := by
    intro b c
    cases b with
    | false => exact List.nil_sublist _
    | true => exact List.Sublist.refl _
  have hclauses := ((((hif s.fileIds (.fileId [])).append (hif s.pageMin (.pageMin 0))).append
    (hif s.pageMax (.pageMax 0))).append (hif s.needsReview (.needsReview false))).append
      (List.Sublist.refl ((List.range s.fields).map fun i ↦ Clause.field i "" ""))
  have hnames : s.names.Sublist _ := hclauses.flatMap Clause.names
  rw [List.flatMap_append, List.flatMap_map] at hnames
  exact hnames

theorem Shape.nodup_names (s : Shape) : s.names.Nodup :=
  s.names_sublist.nodup
    (List.nodup_append'.mpr ⟨by decide, nodup_fieldNames _, ownNames_disjoint _⟩)

/-- All names begin alike. -/
theorem Shape.take_names {s : Shape} {name : String} (h : name ∈ s.names) :
    name.toList.take 2 = ['f', '_'] := by
  have hown : ∀ a ∈ ownNames, a.toList.take 2 = ['f', '_'] := by decide
  rcases List.mem_append.mp (s.names_sublist.subset h) with h | h
  · exact hown name h
  · have htake : name.toList.take 2 = (name.toList.take 4).take 2 := by
      rw [List.take_take, min_eq_left (by decide)]
    rcases take_fieldNames h with h | h <;> rw [htake, h] <;> rfl

/-! ## The statements are well bound -/

namespace RetrievalFilters

variable (f : RetrievalFilters)

theorem wellBound : WellBound f.sqlClauses.1 f.sqlClauses.2 where
  nodup := by
    rw [names_eq_shape]
    exact f.shape.nodup_names
  mem_iff := fun name ↦ by
    rw [sql_eq_shape, names_eq_shape, f.shape.bindNames_sql.1]

theorem breaks_sql : Breaks f.sqlClauses.1.toList := by
  rw [sql_eq_shape]
  exact f.shape.bindNames_sql.2

/-- A name that begins otherwise is no parameter of a filter. -/
theorem params_disjoint {names : List String} (h : ∀ a ∈ names, a.toList.take 2 ≠ ['f', '_']) :
    (f.sqlClauses.2.map Prod.fst).Disjoint names := by
  intro name hfilter hname
  rw [names_eq_shape] at hfilter
  exact h name hname (Shape.take_names hfilter)

end RetrievalFilters

section

variable (projectId cfg query : String) (limit : Int) (maxDf : Rat) (ids : List ChunkId)

theorem ftsArgs_names :
    (ftsArgs projectId cfg query limit maxDf).map Prod.fst = ["p", "cfg", "q", "n", "max_df"] :=
  rfl

theorem ftsArgs_wellBound :
    WellBound (lines ftsHead ++ lines ftsTail) (ftsArgs projectId cfg query limit maxDf) where
  nodup := by
    rw [ftsArgs_names]
    decide
  mem_iff := fun name ↦ by
    have hnames : bindNames (lines ftsHead ++ lines ftsTail) =
        ["cfg", "q", "p", "p", "max_df", "p", "n"] := by
      rw [bindNames_append _ (bindNames_lines ftsTail).2, bindNames_ftsHead, bindNames_ftsTail]
      rfl
    have hleft : ∀ a ∈ ["cfg", "q", "p", "p", "max_df", "p", "n"],
        a ∈ ["p", "cfg", "q", "n", "max_df"] := by decide
    have hright : ∀ a ∈ ["p", "cfg", "q", "n", "max_df"],
        a ∈ ["cfg", "q", "p", "p", "max_df", "p", "n"] := by decide
    rw [hnames, ftsArgs_names]
    exact ⟨hleft name, hright name⟩

theorem vectorIdsArgs_wellBound : WellBound (vectorIdsHead ++ "") (vectorIdsArgs ids) where
  nodup := List.nodup_singleton _
  mem_iff := fun name ↦ by
    have hnames : bindNames (vectorIdsHead ++ "") = ["ids"] := by decide
    rw [hnames]
    rfl

variable (f : RetrievalFilters)

theorem params_disjoint_ftsArgs :
    (f.sqlClauses.2.map Prod.fst).Disjoint
      ((ftsArgs projectId cfg query limit maxDf).map Prod.fst) := by
  rw [ftsArgs_names]
  exact f.params_disjoint (by decide)

theorem params_disjoint_vectorIdsArgs :
    (f.sqlClauses.2.map Prod.fst).Disjoint ((vectorIdsArgs ids).map Prod.fst) := by
  show (f.sqlClauses.2.map Prod.fst).Disjoint ["ids"]
  exact f.params_disjoint (by decide)

/-- The whole statement of the sparse leg is well bound, with filters or without. -/
theorem ftsStatement_wellBound (filters : Option RetrievalFilters) :
    WellBound (ftsStatement projectId cfg query limit maxDf filters).1
      (ftsStatement projectId cfg query limit maxDf filters).2 := by
  have hown := ftsArgs_wellBound projectId cfg query limit maxDf
  have htail := (bindNames_lines ftsTail).2
  cases filters with
  | none =>
      have hempty : WellBound "" ([] : List (String × Argument)) :=
        ⟨List.nodup_nil, fun name ↦ Iff.rfl⟩
      exact hempty.splice (fun c hc ↦ by cases hc) htail hown (List.disjoint_nil_left _)
  | some f =>
      refine (f.wellBound.map Sum.inl).splice f.breaks_sql htail hown ?_
      rw [WellBound.names_map]
      exact params_disjoint_ftsArgs projectId cfg query limit maxDf f

/-- So is that over the candidates of the vector leg. -/
theorem vectorIdsStatement_wellBound {stmt : String × List (String × Argument)}
    (h : vectorIdsStatement ids f = some stmt) : WellBound stmt.1 stmt.2 := by
  rw [vectorIdsStatement] at h
  split at h
  · cases h
  · cases h
    have hempty : Breaks "".toList := by
      intro c hc
      cases hc
    have hsplice := (f.wellBound.map Sum.inl).splice f.breaks_sql hempty
      (vectorIdsArgs_wellBound ids) (by
        rw [WellBound.names_map]
        exact params_disjoint_vectorIdsArgs ids f)
    rw [String.append_empty] at hsplice
    exact hsplice.perm List.perm_append_comm

end

/-- Filters that set the same things have one text, whatever they ask for.  Each bind name in it
has exactly one parameter, each parameter is in it, and none has the name of a parameter that the
two statements add. -/
theorem sqlClauses_wellBound :
    (∀ f g : RetrievalFilters, f.shape = g.shape → f.sqlClauses.1 = g.sqlClauses.1) ∧
      ∀ f : RetrievalFilters, WellBound f.sqlClauses.1 f.sqlClauses.2 ∧
        (∀ projectId cfg query limit maxDf, (f.sqlClauses.2.map Prod.fst).Disjoint
          ((ftsArgs projectId cfg query limit maxDf).map Prod.fst)) ∧
        ∀ ids, (f.sqlClauses.2.map Prod.fst).Disjoint ((vectorIdsArgs ids).map Prod.fst) := by
  refine ⟨fun f g h ↦ ?_, fun f ↦ ⟨f.wellBound, ?_, ?_⟩⟩
  · rw [f.sql_eq_shape, g.sql_eq_shape, h]
  · intro projectId cfg query limit maxDf
    exact params_disjoint_ftsArgs projectId cfg query limit maxDf f
  · intro ids
    exact params_disjoint_vectorIdsArgs ids f

/-- Two filters on two fields each: what is asked for is in the parameters alone. -/
theorem sqlClauses_quoted :
    let f : RetrievalFilters := ⟨some ["f1"], none, some 3, none,
      some [("vendor", "Acme"), ("total", "12.50")]⟩
    let g : RetrievalFilters := ⟨some ["f2", "f3"], none, some 7, none,
      some [("x') OR (1", "1"), ("y :p", ":q")]⟩
    f.sqlClauses.1 = g.sqlClauses.1 ∧ WellBound g.sqlClauses.1 g.sqlClauses.2 :=
  ⟨sqlClauses_wellBound.1 _ _ (by decide), (sqlClauses_wellBound.2 _).1⟩

end Adapta.Rag
