import Adapta.Datasets.Rows

/-!
# Synthesis

`synthesize_from_chunks` of `adapta/services/synthesis.py` asks a generator for items about
each chunk of a project's documents, shapes them into rows, drops duplicates and writes
the rest to a file.  In the mode `rag_eval` the rows are questions for the retrieval, in
the mode `behavior` they are rows for an eval task.

What the generator is asked is left out, since nothing is assumed of its output; so are
the loading of the chunks and the teacher's URL.
-/

namespace Adapta.Datasets

open Lib
open Adapters (EvalTask)

/-- A chunk of an indexed document. -/
structure Chunk where
  id : Str
  text : Str
  page : Option Int
  filename : Str

/-- What is synthesized. -/
inductive Mode where
  | ragEval
  | behavior (task : EvalTask)
deriving DecidableEq, Repr

section Helpers

variable (c : Config)

/-! ## Items -/

/-- The fences, with or without `json`, are dropped. -/
def dropFences : Str → Str
  | .char '\x60' :: .char '\x60' :: .char '\x60' :: .char 'j' :: .char 's' :: .char 'o' ::
      .char 'n' :: s => dropFences s
  | .char '\x60' :: .char '\x60' :: .char '\x60' :: s => dropFences s
  | d :: s => d :: dropFences s
  | [] => []

/-- The text from the first opening to the last closing bracket. -/
def bracketed (s : Str) : Str :=
  (s.dropWhile (· ≠ .char '[')).rdropWhile (· ≠ .char ']')

/-- `_extract_items`. -/
def extractItems (raw : Str) : List Fields :=
  match loads c.canon (bracketed (strip (dropFences raw))) with
  | some (.arr data) => data.filterMap fun
      | .obj l => some l
      | _ => none
  | _ => []

/-- The field is a string. -/
def stringField (l : Fields) (k : String) : Option Str :=
  match getField l (str k) with
  | some (.str s) => some s
  | _ => none

/-- `_extract_pairs`. -/
def extractPairs (raw : Str) : List (Str × Str) :=
  (extractItems c raw).filterMap fun l ↦
    match stringField l "question", stringField l "answer" with
    | some q, some a => if strip q ≠ [] ∧ strip a ≠ [] then some (strip q, strip a) else none
    | _, _ => none

/-- `_norm_ws`. -/
def normWs (s : Str) : Str := c.lower (strip (collapse s))

/-! ## Rows -/

def esWords : List String :=
  ["el", "la", "los", "las", "de", "del", "que", "y", "en", "un", "una", "por", "con", "para",
    "es", "se"]

def enWords : List String :=
  ["the", "of", "and", "to", "in", "is", "that", "for", "with", "are", "on", "as", "by"]

/-- A letter of the pattern of `detect_lang`. -/
def isLetter (d : Code) : Bool :=
  match d with
  | .char x => ('a' ≤ x && x ≤ 'z') || x ∈ ['á', 'é', 'í', 'ó', 'ú', 'ñ', 'ü']
  | .surrogate _ => false

/-- `detect_lang`. -/
def detectLang (text : Str) : String :=
  let words := ((c.lower text).splitOnP fun d ↦ !isLetter d).filter (· ≠ [])
  let es := words.countP (· ∈ esWords.map str)
  let en := words.countP (· ∈ enWords.map str)
  if en < es then "es" else "en"

/-- `rag_eval_rows`. -/
def ragEvalRows (raw : Str) (chunk : Chunk) : List (Str × Fields) :=
  (extractPairs c raw).map fun x ↦
    (x.1,
      [(str "q", .str x.1), (str "expected_file", .str chunk.filename),
        (str "lang", .str (str (detectLang c chunk.text))), (str "answer", .str x.2),
        (str "source_chunk_id", .str chunk.id)] ++
      match chunk.page with
      | some n => [(str "expected_page", .int n)]
      | none => [])

def maxChunkChars : Nat := 1500

/-- `str(v)` of a string or a number. -/
def valueText : Json → Option Str
  | .str s => some s
  | .bool true => some (str "True")
  | .bool false => some (str "False")
  | .int n => some ((intText n).map .char)
  | .float x => some
      (if x.text = "NaN".toList then str "nan"
      else if x.text = "Infinity".toList then str "inf"
      else if x.text = "-Infinity".toList then str "-inf"
      else x.text.map .char)
  | _ => none

/-- The prompt and the response of an item of the task `classify`. -/
def classifyItem (text : Str) (l : Fields) : Option (Str × Str × Str) :=
  match stringField l "statement", stringField l "label" with
  | some st, some label =>
      let label := c.lower (strip label)
      if strip st ≠ [] ∧ (label = str "yes" ∨ label = str "no") then
        some (strip st,
          text ++ str "\n\nBased on the text above, is this statement true? " ++ strip st ++
            str "\nAnswer yes or no.",
          label)
      else none
  | _, _ => none

/-- The same for `extract`; a value that is not quoted from the text is an invented fact. -/
def extractItem (text : Str) (l : Fields) : Option (Str × Str × Str) :=
  match stringField l "instruction", getField l (str "fields") with
  | some ins, some (.obj fields) =>
      let quoted (x : Str × Json) : Bool :=
        (valueText x.2).any fun v ↦ decide (normWs c v <:+: normWs c text)
      if strip ins ≠ [] ∧ fields ≠ [] ∧ fields.all quoted then
        some (strip ins,
          text ++ str "\n\n" ++ strip ins ++ str "\nRespond with a JSON object only.",
          dumps false (.obj fields))
      else none
  | _, _ => none

/-- A row, with the system prompt if there is one. -/
def behaviorRow (system : Option Str) (prompt response : Str) : Fields :=
  [(str "prompt", .str prompt), (str "response", .str response)] ++
    match system with
    | some s => if s = [] then [] else [(str "system", .str s)]
    | none => []

/-- `behavior_rows`. -/
def behaviorRows (raw : Str) (chunk : Chunk) (task : EvalTask) (system : Option Str) :
    List (Str × Fields) :=
  let text := chunk.text.take maxChunkChars
  let items : List (Str × Str × Str) := match task with
    | .classify => (extractItems c raw).filterMap (classifyItem c text)
    | .extract => (extractItems c raw).filterMap (extractItem c text)
    | .freeform => (extractPairs c raw).map fun x ↦ (x.1, text ++ str "\n\n" ++ x.1, x.2)
  items.map fun x ↦ (x.1, behaviorRow system x.2.1 x.2.2)

/-! ## Duplicates -/

/-- `dedup_exact`, with the keys that have been seen. -/
def dedupExact : List Str → List (Str × Fields) → List (Str × Fields)
  | _, [] => []
  | seen, x :: items =>
      if normWs c x.1 ∈ seen then dedupExact seen items
      else x :: dedupExact (normWs c x.1 :: seen) items

end Helpers

/-- `near_duplicate_mask`, with the vectors that have been kept. -/
def nearDuplicateMask {α : Type} (above : α → α → Bool) : List α → List α → List Bool
  | _, [] => []
  | kept, v :: vectors =>
      if kept.any (above v) then false :: nearDuplicateMask above kept vectors
      else true :: nearDuplicateMask above (kept ++ [v]) vectors

/-! ## The file -/

/-- Why a synthesis failed: a `DomainError` with its message, or any other exception. -/
inductive Failure where
  | domain (message : String)
  | crash
deriving DecidableEq, Repr

section Run

variable (c : Config) (mode : Mode) (system : Option Str) (outputs : List (Chunk × Option Str))

/-- The items of all chunks; an output is `none` if the generator raised. -/
def allItems : List (Str × Fields) :=
  outputs.flatMap fun x ↦
    match x.2, mode with
    | none, _ => []
    | some raw, .ragEval => ragEvalRows c raw x.1
    | some raw, .behavior task => behaviorRows c raw x.1 task system

/-- The rows that are no duplicates of earlier ones. -/
def keptRows : List Fields :=
  let items := dedupExact c [] (allItems c mode system outputs)
  let mask := nearDuplicateMask c.near [] (items.map Prod.fst)
  ((items.zip mask).filter Prod.snd).map fun x ↦ x.1.2

/-- The rows that are written. -/
def finalRows : List Fields :=
  match mode with
  | .ragEval => keptRows c mode system outputs
  | .behavior _ => (keptRows c mode system outputs).take c.evalMaxRows

/-- The fraction of the chunks for which the generator raised. -/
def errorRate : Rat :=
  if outputs = [] then 0 else (outputs.countP (·.2 = none) : Rat) / outputs.length

/-- `synthesize_from_chunks`: the text of the file and the number of rows.  The embedding of
the questions may raise. -/
def synthesizeFromChunks (embedded : Bool) : Except Failure (Str × Nat) :=
  let rate := errorRate outputs
  if allItems c mode system outputs = [] then
    .error (.domain "Synthesis produced no valid rows. Check model availability.")
  else if c.synthesisMaxErrorRate < rate then
    .error (.domain ("Synthesis failed on " ++ c.percent rate ++ "% of chunks (max " ++
      c.percent c.synthesisMaxErrorRate ++ "%) — the resulting dataset would be too sparse to " ++
      "trust. Check model availability and retry."))
  else if !embedded then .error .crash
  else
    let rows := finalRows c mode system outputs
    let text := writeRows false rows
    -- a surrogate by itself cannot be written
    if encodable text then .ok (text, rows.length) else .error .crash

end Run

/-! ## What is written can be read -/

variable {c : Config} {task : EvalTask} {system : Option Str}

/-- A row of `behavior_rows` reads back as it was. -/
theorem reload_behaviorRow (prompt response : Str) :
    reload c.canon false (.obj (behaviorRow system prompt response)) =
      .obj (behaviorRow system prompt response) := by
  have hpr : str "prompt" ≠ str "response" := by decide
  have hps : str "prompt" ≠ str "system" := by decide
  have hrs : str "response" ≠ str "system" := by decide
  cases system with
  | none => simp [behaviorRow, reload, reloadFields, ofPairs, setField, hpr]
  | some s =>
      by_cases hs : s = []
      · simp [behaviorRow, hs, reload, reloadFields, ofPairs, setField, hpr]
      · simp [behaviorRow, hs, reload, reloadFields, ofPairs, setField, hpr, hps, hrs]

theorem getField_behaviorRow (prompt response : Str) :
    getField (behaviorRow system prompt response) (str "response") = some (.str response) := by
  have hpr : str "prompt" ≠ str "response" := by decide
  simp [getField, behaviorRow, hpr]

/-- A written object is parsed as one. -/
theorem parseJsonObject_dumps (l : Fields) : (parseJsonObject c (dumps false (.obj l))).isSome := by
  obtain ⟨body, hbody⟩ := dumps_obj false l
  have hunfence : unfence (dumps false (.obj l)) = dumps false (.obj l) := by
    rw [hbody]
    rfl
  rw [parseJsonObject, strip_dumps_obj, hunfence, loads_dumps]
  rfl

/-- The rows `behavior_rows` makes for a task have a response that fits it. -/
theorem responseOk_behaviorRows {raw : Str} {chunk : Chunk} {x : Str × Fields}
    (hx : x ∈ behaviorRows c raw chunk task system) :
    ∃ prompt response, x.2 = behaviorRow system prompt response ∧
      (task = .extract → (parseJsonObject c response).isSome) := by
  obtain ⟨⟨key, prompt, response⟩, hitem, rfl⟩ := List.mem_map.mp hx
  refine ⟨prompt, response, rfl, ?_⟩
  rintro rfl
  obtain ⟨l, -, hl⟩ := List.mem_filterMap.mp hitem
  simp only [extractItem] at hl
  split at hl
  · split at hl
    · cases hl
      exact parseJsonObject_dumps _
    · cases hl
  · cases hl

theorem mem_of_mem_dedupExact {seen : List Str} {items : List (Str × Fields)} {x : Str × Fields}
    (h : x ∈ dedupExact c seen items) : x ∈ items := by
  induction items generalizing seen with
  | nil => cases h
  | cons y items ih =>
      simp only [dedupExact] at h
      split at h
      · exact List.mem_cons_of_mem _ (ih h)
      · rcases List.mem_cons.mp h with rfl | h
        · exact List.mem_cons_self
        · exact List.mem_cons_of_mem _ (ih h)

/-- The rows of a file for a task are rows that `behavior_rows` has made. -/
theorem mem_allItems_of_finalRows {outputs : List (Chunk × Option Str)} {row : Fields}
    (h : row ∈ finalRows c (.behavior task) system outputs) :
    ∃ raw chunk key, (key, row) ∈ behaviorRows c raw chunk task system := by
  have hkept := List.mem_of_mem_take h
  obtain ⟨⟨⟨key, row'⟩, keep⟩, hzip, rfl⟩ := List.mem_map.mp hkept
  have hmem := mem_of_mem_dedupExact (List.of_mem_zip (List.mem_filter.mp hzip).1).1
  obtain ⟨⟨chunk, out⟩, -, hx⟩ := List.mem_flatMap.mp hmem
  cases out with
  | none => cases hx
  | some raw => exact ⟨raw, chunk, key, hx⟩

/-- Every line of a synthesized file is good. -/
theorem lineOk_of_finalRows {outputs : List (Chunk × Option Str)} {row : Fields}
    (h : row ∈ finalRows c (.behavior task) system outputs) :
    LineOk c (some task) (rowLine false row) := by
  obtain ⟨raw, chunk, key, hrow⟩ := mem_allItems_of_finalRows h
  obtain ⟨prompt, response, rfl, hparse⟩ := responseOk_behaviorRows hrow
  refine ⟨behaviorRow system prompt response, ?_, response, getField_behaviorRow _ _, ?_⟩
  · rw [strip_rowLine, loads_dumps, reload_behaviorRow]
  · exact fun ht ↦ hparse (Option.some.inj ht)

/-- A synthesis that succeeds has written its final rows. -/
theorem synthesizeFromChunks_ok {mode : Mode} {outputs : List (Chunk × Option Str)}
    {embedded : Bool} {text : Str} {n : Nat}
    (h : synthesizeFromChunks c mode system outputs embedded = .ok (text, n)) :
    text = writeRows false (finalRows c mode system outputs) ∧
      n = (finalRows c mode system outputs).length := by
  simp only [synthesizeFromChunks] at h
  split at h
  · cases h
  split at h
  · cases h
  split at h
  · cases h
  split at h
  · cases h
    exact ⟨rfl, rfl⟩
  · cases h

end Adapta.Datasets
