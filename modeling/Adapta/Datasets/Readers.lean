import Adapta.Lib.Margin
import Adapta.Datasets.Rows

/-!
# The readers of a dataset

Four functions go over the lines of a dataset.  `validate_dataset` and `_read_jsonl` strip a
line before they parse it, `check_eval_set_size` only strips it to see whether it is blank, and
`read_eval_rows` does the same but then parses the line as it stands.  So `read_eval_rows` is
the one that may disagree: it raises on a line whose margin holds white space that is none in
JSON, such as a no-break space.
-/

namespace Adapta.Datasets

open Lib
open Adapters (EvalTask)

variable {c : Config} {task : Option EvalTask} {text : Str} {n : Nat}

/-! ## What is read -/

/-- The values that the loop of `validate_dataset` parses: `scan`, with the values kept. -/
def scanRows (c : Config) (task : Option EvalTask) : Nat → List Str → List String → List Json
  | _, [], _ => []
  | i, line :: rest, errors =>
      if strip line = [] then scanRows c task (i + 1) rest errors
      else
        match loads c.canon (strip line) with
        | none =>
            let errors := errors ++ ["Line " ++ toString i ++ ": invalid JSON — " ++
              c.decodeError (strip line)]
            if maxReportedErrors ≤ errors.length then []
            else scanRows c task (i + 1) rest errors
        | some obj =>
            let found := validateRow c i obj task
            obj :: if maxReportedErrors ≤ (errors ++ found).length ∧ found ≠ [] then []
              else scanRows c task (i + 1) rest (errors ++ found)

/-- The rows that `validate_dataset` parses. -/
def parsedRows (c : Config) (task : Option EvalTask) (text : Str) : List Json :=
  scanRows c task 1 (lines text) []

/-- What `check_eval_set_size` answers for `n` rows. -/
def sizeVerdict (c : Config) (n : Nat) : Except String Nat :=
  if c.evalMinRows ≤ n ∧ n ≤ c.evalMaxRows then .ok n
  else .error ("An eval set needs " ++ toString c.evalMinRows ++ "-" ++ toString c.evalMaxRows ++
    " rows; this file has " ++ toString n ++ ".")

/-- The readers return the `n` rows that were validated, and `n` is the size. -/
structure ReadersAgree (c : Config) (task : Option EvalTask) (text : Str) (n : Nat) : Prop where
  evalRows : readEvalRows c text = some (parsedRows c task text)
  jsonl : readJsonl c text = some (parsedRows c task text)
  length : (parsedRows c task text).length = n
  size : checkEvalSetSize c text = sizeVerdict c n

/-! ## Stripped lines -/

/-- A scan without problems has parsed what `_read_jsonl` reads. -/
theorem mapM_scanRows {ls : List Str} {i m : Nat} (h : (scan c task i ls [] m).1 = []) :
    (ls.filter (strip · ≠ [])).mapM (fun line ↦ loads c.canon (strip line)) =
      some (scanRows c task i ls []) := by
  induction ls generalizing i m with
  | nil => rfl
  | cons line ls ih =>
      rcases scan_cons h with ⟨hblank, hscan⟩ | ⟨hline, v, hload, hrow, hscan⟩
      · rw [hscan] at h
        rw [scanRows, if_pos hblank, List.filter_cons_of_neg (by simp [hblank])]
        exact ih h
      · rw [hscan] at h
        rw [List.filter_cons_of_pos (by simp [hline]), List.mapM_cons, hload, ih h]
        simp [scanRows, hline, hload, hrow]

theorem readJsonl_of_valid (h : (validateDataset c text task).1 = true) :
    readJsonl c text = some (parsedRows c task text) := by
  apply mapM_scanRows (m := 0)
  by_contra hne
  simp [validateDataset, hne] at h

/-! ## Lines as they stand -/

/-- Lines that can be read stripped can be read as they stand if and only if their margins are
blank. -/
theorem mapM_loads_iff {ls : List Str} {rows : List Json}
    (h : ls.mapM (fun line ↦ loads c.canon (strip line)) = some rows) :
    ls.mapM (loads c.canon) = some rows ↔ ∀ line ∈ ls, ∀ x ∈ margin line, x.blank = true := by
  induction ls generalizing rows with
  | nil => exact ⟨fun _ line hl ↦ absurd hl List.not_mem_nil, fun _ ↦ h⟩
  | cons line ls ih =>
      rw [List.mapM_cons] at h
      obtain ⟨v, hv, h⟩ := Option.bind_eq_some_iff.mp h
      obtain ⟨vs, hvs, h⟩ := Option.bind_eq_some_iff.mp h
      cases h
      rw [List.forall_mem_cons, ← ih hvs, List.mapM_cons]
      constructor
      · intro hall
        obtain ⟨v', hv', hall⟩ := Option.bind_eq_some_iff.mp hall
        obtain ⟨vs', hvs', hall⟩ := Option.bind_eq_some_iff.mp hall
        cases hall
        exact ⟨(loads_eq_some_iff.mp hv').2, hvs'⟩
      · rintro ⟨hline, hrest⟩
        rw [loads_eq_some_iff.mpr ⟨hv, hline⟩, hrest]
        rfl

/-- For a file that `validate_dataset` accepts, all readers agree if and only if no row has
white space around it that JSON does not allow. -/
theorem readersAgree_iff (h : validateDataset c text task = (true, none, n)) :
    ReadersAgree c task text n ↔ ∀ line ∈ rowLines text, ∀ x ∈ margin line, x.blank = true := by
  have hvalid : (validateDataset c text task).1 = true := by rw [h]
  have hjsonl := readJsonl_of_valid hvalid
  obtain ⟨hok, hn⟩ := validateDataset_spec hvalid
  have hcount : (rowLines text).length = n := by rw [← hn, h]
  constructor
  · intro hagree
    exact (mapM_loads_iff hjsonl).mp hagree.evalRows
  · intro hmargin
    refine ⟨(mapM_loads_iff hjsonl).mpr hmargin, hjsonl, ?_, ?_⟩
    · obtain ⟨rows, hrows, hlen, -, -⟩ := rows_of_lineOk hok
      have hparsed := Option.some.inj (hjsonl.symm.trans hrows)
      rw [hparsed, List.length_map, hlen, hcount]
    · rw [← hcount]
      rfl

/-! ## A no-break space -/

/-- A row with spaces around it and a blank line. -/
def spacedFile : Str :=
  str "  \x7b\"prompt\": \"Sky?\", \"response\": \"blue\"\x7d \r\n\n"

/-- The same row after a no-break space. -/
def noBreakFile : Str := .char '\u00a0' :: spacedFile

/-- `readersAgree_iff` at a file whose margins are spaces and a line end. -/
theorem readersAgree_spacedFile : ReadersAgree .sample (some .classify) spacedFile 1 :=
  (readersAgree_iff (by decide)).mpr (by decide)

/-- The row after a no-break space is valid, and `read_eval_rows` raises on it. -/
theorem noBreakFile_raises :
    validateDataset .sample noBreakFile (some .classify) = (true, none, 1) ∧
      (readJsonl .sample noBreakFile).isSome ∧ readEvalRows .sample noBreakFile = none ∧
      ¬ReadersAgree .sample (some .classify) noBreakFile 1 := by
  have hraise : (readEvalRows .sample noBreakFile).isNone = true := by decide
  have hnone := Option.isNone_iff_eq_none.mp hraise
  refine ⟨by decide, by decide, hnone, ?_⟩
  intro hagree
  rw [hagree.evalRows] at hnone
  cases hnone

end Adapta.Datasets
