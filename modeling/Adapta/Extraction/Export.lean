import Mathlib.Data.List.Forall2
import Adapta.Extraction.Fields
import Adapta.Lib.Csv

/-!
# The export of extracted fields

`GET /projects/{id}/fields.csv` gives the fields that were read from each page as a CSV text
with one column for each property of the schema (`fields_csv` of
`adapta/services/extraction.py`).  A cell whose text begins with one of `= + - @` would be
evaluated by a spreadsheet.
-/

namespace Adapta.Extraction

open Lib

/-! ## The source -/

/-- `repr` of a float. -/
def floatRepr (x : FloatText) : Str :=
  if x.text = "NaN".toList then str "nan"
  else if x.text = "Infinity".toList then str "inf"
  else if x.text = "-Infinity".toList then str "-inf"
  else x.text.map .char

/-- What `csv.writer` writes for an object; `None` is an empty field. -/
def cellText : Option Scalar → Str
  | none => []
  | some (.str s) => s
  | some (.int n) => (intText n).map .char
  | some (.float x) => floatRepr x
  | some (.bool true) => str "True"
  | some (.bool false) => str "False"

/-- The first character is one of `= + - @`. -/
def Formula (s : Str) : Prop :=
  s.head? = some (.char '=') ∨ s.head? = some (.char '+') ∨ s.head? = some (.char '-') ∨
    s.head? = some (.char '@')

instance : DecidablePred Formula := fun _ ↦ inferInstanceAs (Decidable (_ ∨ _))

/-- `cell`. -/
def cell : Scalar → Scalar
  | .str s => .str (if Formula s then .char '\'' :: s else s)
  | v => v

/-- A row of the query. -/
structure FieldsRow where
  filename : Str
  page : Option Int
  fields : Option (List (Str × Scalar))

/-- `(r.fields or {}).get(k, "")`. -/
def FieldsRow.get (r : FieldsRow) (k : Str) : Scalar :=
  (((r.fields.getD []).find? (·.1 = k)).map Prod.snd).getD (.str [])

/-- The objects that `fields_csv` hands to the writer. -/
def csvTable (rows : List FieldsRow) (schema : Fields) : List (List (Option Scalar)) :=
  (some (.str (str "file")) :: some (.str (str "page")) ::
      (schemaKeys schema).map fun k ↦ some (.str k)) ::
    rows.map fun r ↦
      some (cell (.str r.filename)) :: r.page.map .int ::
        (schemaKeys schema).map fun k ↦ some (cell (r.get k))

/-- `fields_csv`. -/
def fieldsCsv (rows : List FieldsRow) (schema : Fields) : Str :=
  Csv.write ((csvTable rows schema).map (·.map cellText))

/-- `export_fields_csv` of a project with a schema. -/
def exportFieldsCsv (stored : Fields) (rows : List FieldsRow) : Except String Str :=
  (validateSchema (.obj stored)).map (fieldsCsv rows)

/-! ## Formulas -/

/-- A cell that was a string does not begin a formula. -/
def CellSafe (v : Option Scalar) (s : Str) : Prop := (∃ t, v = some (.str t)) → ¬ Formula s

/-- The export is a CSV text of a table with the right shape in which no string begins a
formula. -/
def ExportSafe (stored : Fields) (rows : List FieldsRow) : Prop :=
  ∃ text table, exportFieldsCsv stored rows = .ok text ∧ Csv.read text = some table ∧
    table.length = rows.length + 1 ∧
    (∀ row ∈ table, row.length = (schemaKeys stored).length + 2) ∧
    List.Forall₂ (List.Forall₂ CellSafe) (csvTable rows stored) table

theorem not_formula_cell (s : Str) : ¬ Formula (cellText (some (cell (.str s)))) := by
  rw [cell]
  by_cases hs : Formula s
  · rw [if_pos hs]
    simp [cellText, Formula]
  · rwa [if_neg hs]

theorem cellSafe_cell (v : Scalar) : CellSafe (some (cell v)) (cellText (some (cell v))) := by
  rintro ⟨t, ht⟩
  cases v with
  | str s => exact not_formula_cell s
  | int n => cases ht
  | float x => cases ht
  | bool b => cases ht

theorem length_of_mem_csvTable {rows : List FieldsRow} {schema : Fields}
    {row : List (Option Scalar)} (h : row ∈ csvTable rows schema) :
    row.length = (schemaKeys schema).length + 2 := by
  rw [csvTable, List.mem_cons, List.mem_map] at h
  rcases h with rfl | ⟨r, -, rfl⟩
  · simp
  · simp

/-- The table and its texts. -/
theorem forall₂_cellText {table : List (List (Option Scalar))} :
    List.Forall₂ (List.Forall₂ CellSafe) table (table.map (·.map cellText)) ↔
      ∀ row ∈ table, ∀ v ∈ row, CellSafe v (cellText v) := by
  rw [List.forall₂_map_right_iff, List.forall₂_same]
  refine forall₂_congr fun row _ ↦ ?_
  rw [List.forall₂_map_right_iff, List.forall₂_same]

/-- The rows below the header are safe. -/
theorem cellSafe_row {r : FieldsRow} {keys : List Str} {v : Option Scalar}
    (hv : v ∈ some (cell (.str r.filename)) :: r.page.map .int ::
      keys.map fun k ↦ some (cell (r.get k))) : CellSafe v (cellText v) := by
  rcases List.mem_cons.mp hv with rfl | hv
  · exact cellSafe_cell _
  rcases List.mem_cons.mp hv with rfl | hv
  · rintro ⟨t, ht⟩
    obtain ⟨n, -, hn⟩ := Option.map_eq_some_iff.mp ht
    cases hn
  · obtain ⟨k, -, rfl⟩ := List.mem_map.mp hv
    exact cellSafe_cell _

/-- The header is safe if the names are. -/
theorem cellSafe_header {keys : List Str} (hkeys : ∀ k ∈ keys, ¬ Formula k) {v : Option Scalar}
    (hv : v ∈ some (.str (str "file")) :: some (.str (str "page")) ::
      keys.map fun k ↦ some (.str k)) : CellSafe v (cellText v) := by
  intro _
  rcases List.mem_cons.mp hv with rfl | hv
  · show ¬ Formula (str "file")
    decide
  rcases List.mem_cons.mp hv with rfl | hv
  · show ¬ Formula (str "page")
    decide
  · obtain ⟨k, hk, rfl⟩ := List.mem_map.mp hv
    exact hkeys k hk

/-- The export of an accepted schema is safe exactly when no property's name begins a
formula: the names in the header are not escaped. -/
theorem exportSafe_iff {body : ExtractionSchema} {stored : Fields} (h : body.update = .ok stored)
    (rows : List FieldsRow) :
    ExportSafe stored rows ↔ ∀ k ∈ schemaKeys stored, ¬ Formula k := by
  have hexport : exportFieldsCsv stored rows = .ok (fieldsCsv rows stored) := by
    rw [exportFieldsCsv, validateSchema_of_ok h]
    rfl
  have hread : Csv.read (fieldsCsv rows stored) =
      some ((csvTable rows stored).map (·.map cellText)) := Csv.read_write _
  constructor
  · rintro ⟨text, table, htext, htable, -, -, hsafe⟩ k hk
    rw [hexport] at htext
    cases htext
    rw [hread] at htable
    cases htable
    have hheader := forall₂_cellText.mp hsafe _ List.mem_cons_self
    have hmem : some (.str k) ∈ (schemaKeys stored).map fun k ↦ some (Scalar.str k) :=
      List.mem_map.mpr ⟨k, hk, rfl⟩
    exact hheader _ (List.mem_cons_of_mem _ (List.mem_cons_of_mem _ hmem)) ⟨k, rfl⟩
  · intro hkeys
    refine ⟨_, _, hexport, hread, by simp [csvTable], ?_, forall₂_cellText.mpr ?_⟩
    · intro texts htexts
      obtain ⟨row, hrow, rfl⟩ := List.mem_map.mp htexts
      rw [List.length_map]
      exact length_of_mem_csvTable hrow
    · intro row hrow v hv
      rw [csvTable, List.mem_cons, List.mem_map] at hrow
      rcases hrow with rfl | ⟨r, -, rfl⟩
      · exact cellSafe_header hkeys hv
      · exact cellSafe_row hv

/-- A page whose vendor is a formula. -/
def vendorRow : FieldsRow :=
  ⟨str "-a.pdf", some 1, some [(str "vendor", .str (str "=1+1"))]⟩

theorem exportSafe_vendor : ExportSafe (oneProperty (str "vendor")).modelDump [vendorRow] := by
  have hupdate : (oneProperty (str "vendor")).update = .ok (oneProperty (str "vendor")).modelDump :=
    rfl
  exact (exportSafe_iff hupdate [vendorRow]).mpr (by decide)

/-- A property is named `=1+1`: so is its column. -/
theorem export_not_safe :
    ¬ ∀ body : ExtractionSchema, ∀ stored rows, body.update = .ok stored →
      ExportSafe stored rows := by
  intro hall
  obtain ⟨text, table, htext, htable, -, -, hsafe⟩ :=
    hall (oneProperty (str "=1+1")) _ [] rfl
  have hread : exportFieldsCsv (oneProperty (str "=1+1")).modelDump [] =
      .ok (str "file,page,=1+1\n") := rfl
  rw [hread] at htext
  cases htext
  have hparsed : Csv.read (str "file,page,=1+1\n") =
      some [[str "file", str "page", str "=1+1"]] := rfl
  rw [hparsed] at htable
  cases htable
  have hheader := (List.forall₂_cons.mp hsafe).1
  have hcell := (List.forall₂_cons.mp (List.forall₂_cons.mp (List.forall₂_cons.mp hheader).2).2).1
  exact hcell ⟨str "=1+1", rfl⟩ (by decide)

end Adapta.Extraction
