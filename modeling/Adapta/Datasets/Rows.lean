import Adapta.Lib.RoundTrip
import Adapta.Adapters.Gate

/-!
# The rows of a dataset

A dataset is a JSONL file with one row a line, an object with a `prompt` and a `response`.
This module has the checks and the readers of such files: `validate_dataset` and
`check_eval_set_size` of `adapta/services/datasets.py`, `parse_json_object` of
`adapta/services/eval_gate.py`, `read_eval_rows` of `adapta/services/adapters.py`, and
`_read_jsonl` of `adapta/api/v1/datasets.py`.

## What is abstracted

* The texts of a JSON error and of a schema violation are parameters.
* `jsonschema` is the check of the one schema it is used with,
  `specs/schemas/eval_dataset.schema.json`; whether that file is there is a parameter.
-/

namespace Adapta.Datasets

open Lib
open Adapters (EvalTask)

/-- Settings, and what depends on Unicode tables, floats and the texts of other packages. -/
structure Config where
  evalMinRows : Nat
  evalMaxRows : Nat
  synthesisMaxErrorRate : Rat
  /-- The schema file exists. -/
  schema : Bool
  canon : FloatText → FloatText
  /-- `str.lower`. -/
  lower : Str → Str
  /-- The text of the `JSONDecodeError` for a line. -/
  decodeError : Str → String
  /-- The message of the `ValidationError` for a row. -/
  schemaError : Fields → String
  /-- The cosine of the embeddings of two questions is above `DEDUP_COSINE`. -/
  near : Str → Str → Bool
  /-- A fraction as a whole number of percent. -/
  percent : Rat → String

/-- The default settings, for texts without floats and with ASCII letters. -/
def Config.sample : Config :=
  { evalMinRows := 20, evalMaxRows := 200, synthesisMaxErrorRate := 1 / 2, schema := true
    canon := id
    lower := List.map fun
      | .char x => .char x.toLower
      | d => d
    decodeError := fun _ ↦ "Expecting value: line 1 column 1 (char 0)"
    schemaError := fun _ ↦ "'prompt' is a required property"
    near := fun _ _ ↦ false
    percent := fun _ ↦ "" }

/-! ## JSON objects in a response -/

/-- The text after a given start. -/
def afterPrefix (p s : Str) : Option Str :=
  if p.isPrefixOf s then some (s.drop p.length) else none

/-- The group of `_FENCE`, or the whole text if the pattern does not match. -/
def unfence (body : Str) : Str :=
  match afterPrefix (str "```") body with
  | none => body
  | some t =>
      let t := ((afterPrefix (str "json") t).getD t).dropWhile isSpace
      if (str "```").isSuffixOf t then (t.take (t.length - 3)).rdropWhile isSpace else body

/-- `parse_json_object`. -/
def parseJsonObject (c : Config) (text : Str) : Option Fields :=
  match loads c.canon (unfence (strip text)) with
  | some (.obj l) => some l
  | _ => none

/-! ## Checks -/

/-- The field is a string that is not blank. -/
def hasText (l : Fields) (k : String) : Bool :=
  match getField l (str k) with
  | some (.str s) => strip s ≠ []
  | _ => false

/-- The type a property of the schema must have. -/
def propertyOk (k : Str) (v : Json) : Bool :=
  if k = str "prompt" ∨ k = str "response" then
    match v with
    | .str s => s ≠ []
    | _ => false
  else if k = str "system" then
    match v with
    | .str _ => true
    | _ => false
  else if k = str "metadata" then
    match v with
    | .obj _ => true
    | _ => false
  else false

/-- The row fits the schema. -/
def schemaOk (l : Fields) : Bool :=
  (getField l (str "prompt")).isSome && (getField l (str "response")).isSome &&
    l.all fun x ↦ propertyOk x.1 x.2

/-- The response is not a string, or it is one that holds a JSON object. -/
def responseParses (c : Config) (l : Fields) : Bool :=
  match getField l (str "response") with
  | some (.str s) => (parseJsonObject c s).isSome
  | _ => true

/-- `_validate_row`. -/
def validateRow (c : Config) (i : Nat) (obj : Json) (task : Option EvalTask) : List String :=
  let line := "Line " ++ toString i
  match obj with
  | .obj l =>
      (if hasText l "prompt" then [] else [line ++ ": missing or empty 'prompt' field"]) ++
      (if hasText l "response" then [] else [line ++ ": missing or empty 'response' field"]) ++
      (if c.schema && !schemaOk l then [line ++ ": schema violation — " ++ c.schemaError l]
        else []) ++
      (if task = some .extract && !responseParses c l then
        [line ++ ": for task 'extract' the 'response' must be a JSON object"] else [])
  | _ => [line ++ ": row must be a JSON object"]

def maxReportedErrors : Nat := 25

/-- The loop of `validate_dataset` over the lines from number `i` on, with the problems and
the number of good rows so far. -/
def scan (c : Config) (task : Option EvalTask) :
    Nat → List Str → List String → Nat → List String × Nat
  | _, [], errors, n => (errors, n)
  | i, line :: rest, errors, n =>
      if strip line = [] then scan c task (i + 1) rest errors n
      else
        match loads c.canon (strip line) with
        | none =>
            let errors := errors ++ ["Line " ++ toString i ++ ": invalid JSON — " ++
              c.decodeError (strip line)]
            if maxReportedErrors ≤ errors.length then (errors, n)
            else scan c task (i + 1) rest errors n
        | some obj =>
            let found := validateRow c i obj task
            if found = [] then scan c task (i + 1) rest errors (n + 1)
            else if maxReportedErrors ≤ (errors ++ found).length then (errors ++ found, n)
            else scan c task (i + 1) rest (errors ++ found) n

/-- `_format_error_report`. -/
def formatErrorReport (errors : List String) : String :=
  let shown := errors.take maxReportedErrors
  let body := "\n".intercalate (shown.map fun e ↦ "  • " ++ e)
  let more := if maxReportedErrors < errors.length then
    "\n  … and " ++ toString (errors.length - maxReportedErrors) ++ " more" else ""
  "Found " ++ toString errors.length ++ " problem(s) in the dataset:\n" ++ body ++ more ++
    "\nFix these and re-upload."

/-- `validate_dataset`: whether the file is valid, the error, and the number of rows. -/
def validateDataset (c : Config) (text : Str) (task : Option EvalTask) :
    Bool × Option String × Nat :=
  let r := scan c task 1 (lines text) [] 0
  if r.1 ≠ [] then (false, some (formatErrorReport r.1), 0)
  else if r.2 = 0 then (false, some "Dataset is empty — must have at least one row", 0)
  else (true, none, r.2)

/-- The lines that are not blank. -/
def rowLines (text : Str) : List Str := (lines text).filter (strip · ≠ [])

/-- `check_eval_set_size`. -/
def checkEvalSetSize (c : Config) (text : Str) : Except String Nat :=
  let n := (rowLines text).length
  if c.evalMinRows ≤ n ∧ n ≤ c.evalMaxRows then .ok n
  else .error ("An eval set needs " ++ toString c.evalMinRows ++ "-" ++ toString c.evalMaxRows ++
    " rows; this file has " ++ toString n ++ ".")

/-! ## Readers -/

/-- `read_eval_rows`, or `none` if it raises. -/
def readEvalRows (c : Config) (text : Str) : Option (List Json) :=
  (rowLines text).mapM (loads c.canon)

/-- `_read_jsonl`. -/
def readJsonl (c : Config) (text : Str) : Option (List Json) :=
  (rowLines text).mapM fun line ↦ loads c.canon (strip line)

/-! ## What a valid file is -/

variable {c : Config} {task : Option EvalTask} {text line : Str} {l : Fields}

/-- The response is a string, and for `extract` one that holds a JSON object. -/
def ResponseOk (c : Config) (task : Option EvalTask) (l : Fields) : Prop :=
  ∃ s, getField l (str "response") = some (.str s) ∧
    (task = some .extract → (parseJsonObject c s).isSome)

/-- A line that `validate_dataset` has no problem with. -/
def LineOk (c : Config) (task : Option EvalTask) (line : Str) : Prop :=
  ∃ l, loads c.canon (strip line) = some (.obj l) ∧ ResponseOk c task l

theorem responseOk_of_validateRow {i : Nat} {v : Json} (h : validateRow c i v task = []) :
    ∃ l, v = .obj l ∧ ResponseOk c task l := by
  cases v with
  | null | bool | int | float | str | arr => cases h
  | obj l =>
      simp only [validateRow, List.append_eq_nil_iff] at h
      obtain ⟨⟨⟨-, htext⟩, -⟩, htask⟩ := h
      refine ⟨l, rfl, ?_⟩
      have htext : hasText l "response" = true := by
        by_contra hno
        rw [if_neg hno] at htext
        cases htext
      simp only [hasText] at htext
      split at htext
      · next s hs =>
          refine ⟨s, hs, ?_⟩
          intro ht
          subst ht
          by_contra hno
          rw [if_pos (by simp [responseParses, hs, hno])] at htask
          cases htask
      · cases htext

/-- The loop never forgets a problem. -/
theorem scan_errors_ne_nil {ls : List Str} {i n : Nat} {errors : List String} (h : errors ≠ []) :
    (scan c task i ls errors n).1 ≠ [] := by
  induction ls generalizing i errors n with
  | nil => exact h
  | cons line ls ih =>
      simp only [scan]
      split
      · exact ih h
      split
      · split
        · exact List.append_ne_nil_of_left_ne_nil h _
        · exact ih (List.append_ne_nil_of_left_ne_nil h _)
      · split
        · exact ih h
        split
        · exact List.append_ne_nil_of_left_ne_nil h _
        · exact ih (List.append_ne_nil_of_left_ne_nil h _)

/-- The first line of a scan without problems is blank, or a good row. -/
theorem scan_cons {line : Str} {ls : List Str} {i n : Nat}
    (h : (scan c task i (line :: ls) [] n).1 = []) :
    (strip line = [] ∧ scan c task i (line :: ls) [] n = scan c task (i + 1) ls [] n) ∨
      (strip line ≠ [] ∧ ∃ v, loads c.canon (strip line) = some v ∧ validateRow c i v task = [] ∧
        scan c task i (line :: ls) [] n = scan c task (i + 1) ls [] (n + 1)) := by
  simp only [scan] at h ⊢
  by_cases hblank : strip line = []
  · rw [if_pos hblank]
    exact .inl ⟨hblank, rfl⟩
  rw [if_neg hblank] at h ⊢
  -- a line with a problem leaves one behind
  cases hload : loads c.canon (strip line) with
  | none =>
      simp only [hload] at h
      split at h
      · simp at h
      · exact absurd h (scan_errors_ne_nil (by simp))
  | some v =>
      simp only [hload] at h ⊢
      by_cases hrow : validateRow c i v task = []
      · rw [if_pos hrow]
        exact .inr ⟨hblank, v, rfl, hrow, rfl⟩
      · rw [if_neg hrow] at h
        split at h
        · exact absurd h (by simp [hrow])
        · exact absurd h (scan_errors_ne_nil (by simp [hrow]))

/-- A scan without problems has found every line that is not blank to be good, and counted
them. -/
theorem scan_eq_nil {ls : List Str} {i n : Nat} (h : (scan c task i ls [] n).1 = []) :
    (∀ line ∈ ls, strip line ≠ [] → LineOk c task line) ∧
      (scan c task i ls [] n).2 = n + (ls.filter (strip · ≠ [])).length := by
  induction ls generalizing i n with
  | nil => exact ⟨by rintro line ⟨⟩, rfl⟩
  | cons line ls ih =>
      rcases scan_cons h with ⟨hblank, hscan⟩ | ⟨hline, v, hload, hrow, hscan⟩
      · rw [hscan] at h ⊢
        obtain ⟨hok, hn⟩ := ih h
        refine ⟨?_, by simpa [hblank] using hn⟩
        intro line' hmem hne
        rcases List.mem_cons.mp hmem with rfl | hmem
        · exact absurd hblank hne
        · exact hok line' hmem hne
      · rw [hscan] at h ⊢
        obtain ⟨hok, hn⟩ := ih h
        constructor
        · intro line' hmem hne
          rcases List.mem_cons.mp hmem with rfl | hmem
          · obtain ⟨l, rfl, hl⟩ := responseOk_of_validateRow hrow
            exact ⟨l, hload, hl⟩
          · exact hok line' hmem hne
        · rw [hn, List.filter_cons_of_pos (by simp [hline]), List.length_cons]
          omega

/-- `validate_dataset` accepts a file only if all its rows are good, and counts them. -/
theorem validateDataset_spec (h : (validateDataset c text task).1 = true) :
    (∀ line ∈ rowLines text, LineOk c task line) ∧
      (validateDataset c text task).2.2 = (rowLines text).length := by
  have hnil : (scan c task 1 (lines text) [] 0).1 = [] := by
    by_contra hne
    simp [validateDataset, hne] at h
  obtain ⟨hok, hn⟩ := scan_eq_nil hnil
  constructor
  · intro line hmem
    obtain ⟨hmem, hne⟩ := List.mem_filter.mp hmem
    exact hok line hmem (by simpa using hne)
  · have hpos : (scan c task 1 (lines text) [] 0).2 ≠ 0 := by
      intro h0
      simp [validateDataset, hnil, h0] at h
    have hvalid :
        validateDataset c text task = (true, none, (scan c task 1 (lines text) [] 0).2) := by
      simp [validateDataset, hnil, hpos]
    rw [hvalid]
    simpa [rowLines] using hn

/-! ## What the readers return -/

/-- The rows of good lines.  What `read_eval_rows` returns, if it returns, are the same. -/
theorem rows_of_lineOk {ls : List Str} (h : ∀ line ∈ ls, LineOk c task line) :
    ∃ rows : List Fields,
      ls.mapM (fun line ↦ loads c.canon (strip line)) = some (rows.map .obj) ∧
      rows.length = ls.length ∧ (∀ l ∈ rows, ResponseOk c task l) ∧
      ∀ rows', ls.mapM (loads c.canon) = some rows' → rows' = rows.map .obj := by
  induction ls with
  | nil =>
      refine ⟨[], rfl, rfl, by rintro l ⟨⟩, ?_⟩
      rintro rows' ⟨⟩
      rfl
  | cons line ls ih =>
      obtain ⟨l, hload, hl⟩ := h line List.mem_cons_self
      obtain ⟨rows, hrows, hlen, hok, heval⟩ := ih fun x hx ↦ h x (List.mem_cons_of_mem _ hx)
      refine ⟨l :: rows, ?_, by rw [List.length_cons, List.length_cons, hlen], ?_, ?_⟩
      · rw [List.mapM_cons, hload, hrows]
        rfl
      · intro l' hl'
        rcases List.mem_cons.mp hl' with rfl | hl'
        · exact hl
        · exact hok l' hl'
      · intro rows' hrows'
        rw [List.mapM_cons] at hrows'
        obtain ⟨v, hv, hrows'⟩ := Option.bind_eq_some_iff.mp hrows'
        obtain ⟨vs, hvs, hrows'⟩ := Option.bind_eq_some_iff.mp hrows'
        cases hrows'
        -- the line as a whole and the stripped line are read alike
        cases (loads_strip hv).symm.trans hload
        rw [heval vs hvs]
        rfl

/-! ## Written files -/

/-- The rows of a file as its lines. -/
def writeRows (ascii : Bool) (rows : List Fields) : Str :=
  unlines (rows.map fun l ↦ dumps ascii (.obj l))

/-- A row's line. -/
def rowLine (ascii : Bool) (l : Fields) : Str := dumps ascii (.obj l) ++ [.char '\n']

theorem strip_rowLine (ascii : Bool) (l : Fields) :
    strip (rowLine ascii l) = dumps ascii (.obj l) := by
  rw [rowLine, strip_concat (by decide), strip_dumps_obj]

theorem lines_writeRows (ascii : Bool) (rows : List Fields) :
    lines (writeRows ascii rows) = rows.map (rowLine ascii) := by
  have hin : ∀ s ∈ rows.map fun l ↦ dumps ascii (.obj l), Inline s := by
    intro s hs
    obtain ⟨l, -, rfl⟩ := List.mem_map.mp hs
    exact inline_dumps _
  rw [writeRows, lines_unlines hin, List.map_map]
  rfl

theorem strip_rowLine_ne_nil (ascii : Bool) (l : Fields) : strip (rowLine ascii l) ≠ [] := by
  obtain ⟨body, hbody⟩ := dumps_obj ascii l
  rw [strip_rowLine, hbody]
  exact List.cons_ne_nil _ _

theorem rowLines_writeRows (ascii : Bool) (rows : List Fields) :
    rowLines (writeRows ascii rows) = rows.map (rowLine ascii) := by
  rw [rowLines, lines_writeRows]
  apply List.filter_eq_self.mpr
  intro s hs
  obtain ⟨l, -, rfl⟩ := List.mem_map.mp hs
  simpa using strip_rowLine_ne_nil ascii l

end Adapta.Datasets
