import Mathlib.Data.List.Forall2
import Adapta.Lib.SplitLines
import Adapta.Datasets.Selection

/-!
# Golden sets from a synthesis

A synthesis in the mode `rag_eval` writes questions for the retrieval, and
`set_golden_set` of `adapta/api/v1/golden.py` reads them with `load_questions` of
`adapta/services/golden.py`.  The reader cuts the text with `str.splitlines`, strips the
question and the filename, and takes at most `MAX_QUESTIONS` of them; the writer knows none
of this.  So a set loads back exactly if nothing that is kept holds a Unicode line separator,
every filename is its own stripped text, and not too many questions are kept
(`loadsBack_iff`).
-/

namespace Adapta.Datasets

open Lib

/-! ## The reader -/

def minQuestions : Nat := 1

def maxQuestions : Nat := 200

/-- A row of a golden set, as `parse_questions` returns it. -/
structure Question where
  q : Str
  expectedFile : Str
  lang : Option Str
deriving DecidableEq

section Reader

variable (c : Config)

/-- The body of the loop of `parse_questions`, for a line that is not blank. -/
def parseQuestion (lineno : Nat) (line : Str) : Except String Question :=
  let name := "Line " ++ toString lineno
  match loads c.canon line with
  | none => .error (name ++ " is not valid JSON.")
  | some (.obj obj) =>
      if !hasText obj "q" then .error (name ++ ": 'q' must be a non-empty string.")
      else if !hasText obj "expected_file" then .error
        (name ++ ": 'expected_file' must be the filename of the answering document.")
      else .ok
        { q := strip ((stringField obj "q").getD [])
          expectedFile := strip ((stringField obj "expected_file").getD [])
          lang := stringField obj "lang" }
  | some _ => .error (name ++ " must be a JSON object.")

/-- The loop of `parse_questions`, from line `lineno` on. -/
def parseLines : Nat → List Str → Except String (List Question)
  | _, [] => .ok []
  | lineno, line :: rest =>
      if strip line = [] then parseLines (lineno + 1) rest
      else
        match parseQuestion c lineno line with
        | .error message => .error message
        | .ok x =>
            match parseLines (lineno + 1) rest with
            | .error message => .error message
            | .ok xs => .ok (x :: xs)

/-- `parse_questions`; an error is the message of an `InvalidRequest`. -/
def parseQuestions (text : Str) : Except String (List Question) :=
  match parseLines c 1 (splitLines text) with
  | .error message => .error message
  | .ok rows =>
      if minQuestions ≤ rows.length ∧ rows.length ≤ maxQuestions then .ok rows
      else .error ("A golden set needs " ++ toString minQuestions ++ "-" ++ toString maxQuestions ++
        " questions; this one has " ++ toString rows.length ++ ".")

/-- `load_questions`, for the text of the file. -/
def loadQuestions (text : Str) : Except String (List Question) := parseQuestions c (readText text)

end Reader

/-! ## What is kept -/

/-- A question about a chunk, with its answer. -/
structure Candidate where
  chunk : Chunk
  question : Str
  answer : Str

/-- The row of a question. -/
def Candidate.row (c : Config) (x : Candidate) : Fields :=
  [(str "q", .str x.question), (str "expected_file", .str x.chunk.filename),
    (str "lang", .str (str (detectLang c x.chunk.text))), (str "answer", .str x.answer),
    (str "source_chunk_id", .str x.chunk.id)] ++
  match x.chunk.page with
  | some n => [(str "expected_page", .int n)]
  | none => []

section Selection

variable (c : Config) (outputs : List (Chunk × Option Str))

/-- The questions and answers in the outputs of the generator. -/
def candidates : List Candidate :=
  outputs.flatMap fun x ↦
    match x.2 with
    | some raw => (extractPairs c raw).map fun y ↦ ⟨x.1, y.1, y.2⟩
    | none => []

/-- Those whose question is neither the same as an earlier one nor near one that is kept. -/
def selected : List Candidate :=
  greedy (fun x y ↦ c.near x.question y.question) []
    (greedy (fun x y ↦ decide (normWs c x.question = normWs c y.question)) []
      (candidates c outputs))

end Selection

/-- The texts of a candidate that are written to the file. -/
def Candidate.texts (x : Candidate) : List Str :=
  [x.question, x.chunk.filename, x.answer, x.chunk.id]

/-- Not too many questions are kept, and each of them can be written on a line of its own and
names a file whose name has no white space at its ends. -/
structure Loadable (c : Config) (outputs : List (Chunk × Option Str)) : Prop where
  few : (selected c outputs).length ≤ maxQuestions
  plain : ∀ x ∈ selected c outputs, ∀ s ∈ x.texts, ∀ d ∈ s, isSeparator d = false
  named : ∀ x ∈ selected c outputs,
    x.chunk.filename ≠ [] ∧ strip x.chunk.filename = x.chunk.filename

/-- A question with the `q`, the `expected_file` and the `lang` of a row. -/
structure Matches (row : Fields) (x : Question) : Prop where
  q : getField row (str "q") = some (.str x.q)
  expectedFile : getField row (str "expected_file") = some (.str x.expectedFile)
  lang : getField row (str "lang") = x.lang.map .str

/-- The file loads, and its `n` questions are those of the rows, in order. -/
def LoadsBack (c : Config) (rows : List Fields) (text : Str) (n : Nat) : Prop :=
  ∃ questions, loadQuestions c text = .ok questions ∧ questions.length = n ∧
    List.Forall₂ Matches rows questions

variable {c : Config} {mode : Mode} {system : Option Str} {outputs : List (Chunk × Option Str)}
  {embedded : Bool} {text : Str} {n : Nat} {x : Candidate}

/-! ## The rows are those of what is kept -/

theorem allItems_ragEval :
    allItems c .ragEval system outputs =
      (candidates c outputs).map fun x ↦ (x.question, x.row c) := by
  rw [allItems, candidates, List.map_flatMap]
  congr 1
  funext x
  obtain ⟨chunk, out⟩ := x
  cases out with
  | none => rfl
  | some raw => simp only [ragEvalRows, List.map_map]; rfl

theorem keptRows_ragEval :
    keptRows c .ragEval system outputs = (selected c outputs).map (Candidate.row c) := by
  rw [keptRows_eq, allItems_ragEval, selected]
  have hexact := greedy_map (r := fun x y : Str × Fields ↦ decide (normWs c x.1 = normWs c y.1))
    (fun x : Candidate ↦ (x.question, x.row c)) [] (candidates c outputs)
  rw [List.map_nil] at hexact
  rw [hexact]
  have hnear := greedy_map (r := fun x y : Str × Fields ↦ c.near x.1 y.1)
    (fun x : Candidate ↦ (x.question, x.row c)) []
    (greedy (fun x y ↦ decide (normWs c x.question = normWs c y.question)) []
      (candidates c outputs))
  rw [List.map_nil] at hnear
  rw [hnear, List.map_map]
  rfl

/-- What is kept is a candidate. -/
theorem mem_candidates (hx : x ∈ selected c outputs) : x ∈ candidates c outputs :=
  (greedy_sublist _ _).subset ((greedy_sublist _ _).subset hx)

/-- A question of the generator is stripped, and not empty. -/
theorem question_stripped (hx : x ∈ selected c outputs) :
    x.question ≠ [] ∧ strip x.question = x.question := by
  obtain ⟨⟨chunk, out⟩, -, hx⟩ := List.mem_flatMap.mp (mem_candidates hx)
  cases out with
  | none => cases hx
  | some raw =>
      obtain ⟨⟨q, a⟩, hpair, rfl⟩ := List.mem_map.mp hx
      obtain ⟨l, -, hl⟩ := List.mem_filterMap.mp hpair
      split at hl
      · next q' a' _ _ =>
          split at hl
          · next hne =>
              cases hl
              exact ⟨hne.1, strip_strip q'⟩
          · cases hl
      · cases hl

/-! ## Reading a row -/

theorem reload_row : reload c.canon false (.obj (x.row c)) = .obj (x.row c) := by
  obtain ⟨⟨id, text, page, filename⟩, q, a⟩ := x
  cases page <;> simp [Candidate.row, reload, reloadFields, ofPairs, setField, str]

theorem getField_row :
    getField (x.row c) (str "q") = some (.str x.question) ∧
      getField (x.row c) (str "expected_file") = some (.str x.chunk.filename) ∧
      getField (x.row c) (str "lang") = some (.str (str (detectLang c x.chunk.text))) := by
  have hqe : str "q" ≠ str "expected_file" := by decide
  have hql : str "q" ≠ str "lang" := by decide
  have hel : str "expected_file" ≠ str "lang" := by decide
  refine ⟨?_, ?_, ?_⟩ <;> simp [getField, Candidate.row, hqe, hql, hel]

/-- The line of a question. -/
def Candidate.line (c : Config) (x : Candidate) : Str := dumps false (.obj (x.row c))

/-- What the reader makes of the line. -/
def Candidate.loaded (c : Config) (x : Candidate) : Question :=
  { q := x.question
    expectedFile := strip x.chunk.filename
    lang := some (str (detectLang c x.chunk.text)) }

theorem loads_line : loads c.canon (x.line c) = some (.obj (x.row c)) := by
  rw [Candidate.line, loads_dumps, reload_row]

theorem strip_line : strip (x.line c) ≠ [] := by
  obtain ⟨body, hbody⟩ := dumps_obj false (x.row c)
  rw [Candidate.line, strip_dumps_obj, hbody]
  exact List.cons_ne_nil _ _

/-- A line is read if and only if the filename is not blank. -/
theorem parseQuestion_line (hq : x.question ≠ [] ∧ strip x.question = x.question) (lineno : Nat)
    (y : Question) :
    parseQuestion c lineno (x.line c) = .ok y ↔ strip x.chunk.filename ≠ [] ∧ y = x.loaded c := by
  obtain ⟨hne, hstrip⟩ := hq
  obtain ⟨hgetq, hgete, hgetl⟩ := getField_row (c := c) (x := x)
  have hhasq : hasText (x.row c) "q" = true := by
    simp [hasText, hgetq, hstrip, hne]
  have hhase : hasText (x.row c) "expected_file" = decide (strip x.chunk.filename ≠ []) := by
    simp [hasText, hgete]
  simp only [parseQuestion, loads_line, hhasq, hhase, Bool.not_true, Bool.false_eq_true, if_false]
  by_cases hfile : strip x.chunk.filename = []
  · simp [hfile]
  · have hloaded : x.loaded c =
        { q := strip ((stringField (x.row c) "q").getD [])
          expectedFile := strip ((stringField (x.row c) "expected_file").getD [])
          lang := stringField (x.row c) "lang" } := by
      simp [stringField, hgetq, hgete, hgetl, hstrip, Candidate.loaded]
    simp [hfile, hloaded, eq_comm]

/-! ## Reading the lines -/

theorem parseLines_lines {xs : List Candidate} {i : Nat}
    (hq : ∀ x ∈ xs, x.question ≠ [] ∧ strip x.question = x.question)
    (hfile : ∀ x ∈ xs, strip x.chunk.filename ≠ []) :
    parseLines c i (xs.map (Candidate.line c)) = .ok (xs.map (Candidate.loaded c)) := by
  induction xs generalizing i with
  | nil => rfl
  | cons x xs ih =>
      have hrow := (parseQuestion_line (c := c) (hq x List.mem_cons_self) i _).mpr
        ⟨hfile x List.mem_cons_self, rfl⟩
      have hrest := ih (i := i + 1) (fun y hy ↦ hq y (List.mem_cons_of_mem _ hy))
        fun y hy ↦ hfile y (List.mem_cons_of_mem _ hy)
      simp [parseLines, strip_line, hrow, hrest]

/-- Every line that is not blank has been read. -/
theorem parseQuestion_of_mem {ls : List Str} {line : Str} {i : Nat} {ys : List Question}
    (h : parseLines c i ls = .ok ys) (hline : line ∈ ls) (hs : strip line ≠ []) :
    ∃ j y, parseQuestion c j line = .ok y := by
  induction ls generalizing i ys with
  | nil => cases hline
  | cons l ls ih =>
      simp only [parseLines] at h
      rcases List.mem_cons.mp hline with rfl | hline
      · rw [if_neg hs] at h
        split at h
        · cases h
        · next y hy => exact ⟨i, y, hy⟩
      · split at h
        · exact ih h hline
        split at h
        · cases h
        split at h
        · cases h
        · next hrest => exact ih hrest hline

/-! ## Separators -/

/-- The text that a line with a separator is cut to: it is not blank, and cannot be read. -/
theorem exists_unreadable {s : Str} {d : Code} (hs : s ∈ x.texts) (hd : d ∈ s)
    (hsep : isSeparator d = true) :
    ∃ p e r, x.line c = p ++ e :: r ∧ (∀ e ∈ p, isBreak e = false) ∧ isBreak e = true ∧
      strip p ≠ [] ∧ loads c.canon p = none := by
  have hfield : ∃ k, (k, .str s) ∈ x.row c := by
    simp only [Candidate.texts, List.mem_cons, List.not_mem_nil, or_false] at hs
    rcases hs with rfl | rfl | rfl | rfl
    · exact ⟨str "q", by simp [Candidate.row]⟩
    · exact ⟨str "expected_file", by simp [Candidate.row]⟩
    · exact ⟨str "answer", by simp [Candidate.row]⟩
    · exact ⟨str "source_chunk_id", by simp [Candidate.row]⟩
  obtain ⟨k, hk⟩ := hfield
  have hmem : d ∈ x.line c := mem_dumps_obj hsep hk hd
  obtain ⟨p, e, r, hline, hp, hbreak⟩ :=
    exists_first_break ⟨d, hmem, isBreak_of_isSeparator hsep⟩
  have he : isSeparator e = true := by
    have hmem' : e ∈ x.line c := hline ▸ List.mem_append_right _ List.mem_cons_self
    rw [← isBreak_of_mem_dumps hmem']
    exact hbreak
  refine ⟨p, e, r, hline, hp, hbreak, ?_, ?_⟩
  · -- the brace that opens the object stands before the separator
    obtain ⟨body, hbody⟩ := dumps_obj false (x.row c)
    rw [Candidate.line, hbody] at hline
    cases p with
    | nil =>
        cases hline
        revert he
        decide
    | cons a p =>
        obtain rfl : .char '\x7b' = a := (List.cons.inj hline).1
        exact strip_ne_nil_iff.mpr ⟨_, List.mem_cons_self, by decide⟩
  · exact loads_eq_none_of_separator he (hline ▸ loads_line)

/-- The file of the rows that are kept. -/
theorem writeRows_ragEval :
    writeRows false (finalRows c .ragEval system outputs) =
      unlines ((selected c outputs).map (Candidate.line c)) := by
  rw [writeRows, finalRows, keptRows_ragEval, List.map_map]
  rfl

theorem not_mem_line : .char '\r' ∉ x.line c := fun h ↦ (inline_dumps _ _ h).2 rfl

theorem loadQuestions_unlines {xs : List Candidate} :
    loadQuestions c (unlines (xs.map (Candidate.line c))) =
      parseQuestions c (unlines (xs.map (Candidate.line c))) := by
  have hcr : .char '\r' ∉ unlines (xs.map (Candidate.line c)) := by
    intro h
    obtain ⟨l, hl, h⟩ := List.mem_flatMap.mp h
    obtain ⟨x, -, rfl⟩ := List.mem_map.mp hl
    rcases List.mem_append.mp h with h | h
    · exact not_mem_line h
    · revert h
      decide
  rw [loadQuestions, readText_eq_self hcr]

/-- A set that loads has no separators in it. -/
theorem plain_of_parseLines {xs : List Candidate} {ys : List Question}
    (h : parseLines c 1 (splitLines (unlines (xs.map (Candidate.line c)))) = .ok ys) :
    ∀ x ∈ xs, ∀ s ∈ x.texts, ∀ d ∈ s, isSeparator d = false := by
  intro x hx s hs d hd
  by_contra hsep
  rw [Bool.not_eq_false] at hsep
  obtain ⟨p, e, r, hline, hp, hbreak, hstrip, hload⟩ := exists_unreadable (c := c) hs hd hsep
  have hlines : ∀ l ∈ xs.map (Candidate.line c), .char '\r' ∉ l := by
    intro l hl
    obtain ⟨y, -, rfl⟩ := List.mem_map.mp hl
    exact not_mem_line
  have hmem : p ∈ splitLines (unlines (xs.map (Candidate.line c))) :=
    mem_splitLines_unlines hlines hp hbreak (hline ▸ List.mem_map_of_mem (f := Candidate.line c) hx)
  obtain ⟨j, y, hy⟩ := parseQuestion_of_mem h hmem hstrip
  simp [parseQuestion, hload] at hy

/-- A separator in a line stands in one of the texts. -/
theorem mem_texts_of_mem_line {d : Code} (hsep : isSeparator d = true) (hd : d ∈ x.line c) :
    ∃ s ∈ x.texts, d ∈ s := by
  obtain ⟨y, hy, hdy⟩ := mem_of_mem_dumps_obj hsep hd
  have hquote : ∀ s ∈ x.texts, d ∈ dumps false (.str s) → ∃ s ∈ x.texts, d ∈ s :=
    fun s hs h ↦ ⟨s, hs, mem_of_mem_quote hsep h⟩
  have hlang : d ∉ str (detectLang c x.chunk.text) := by
    apply not_mem_of_isSeparator hsep
    simp only [detectLang]
    split
    · decide
    · decide
  have hint : ∀ n, d ∉ dumps false (.int n) := by
    intro n h
    obtain ⟨w, hw, rfl⟩ := List.mem_map.mp h
    have hspace := not_isSpace_of_isWord (List.all_eq_true.mp (isWord_intText n) w hw)
    rw [(isSpace_of_isSeparator hsep).1] at hspace
    cases hspace
  have hkey : ∀ k ∈ ["q", "expected_file", "lang", "answer", "source_chunk_id", "expected_page"],
      d ∉ str k := by
    intro k hk
    apply not_mem_of_isSeparator hsep
    revert k
    decide
  simp only [Candidate.row, List.mem_append, List.mem_cons, List.not_mem_nil, or_false] at hy
  rcases hy with (rfl | rfl | rfl | rfl | rfl) | hy
  · exact hquote x.question (by simp [Candidate.texts]) (hdy.resolve_left (hkey _ (by decide)))
  · exact hquote x.chunk.filename (by simp [Candidate.texts])
      (hdy.resolve_left (hkey _ (by decide)))
  · have hvalue := hdy.resolve_left (hkey _ (by decide))
    exact absurd (mem_of_mem_quote hsep hvalue) hlang
  · exact hquote x.answer (by simp [Candidate.texts]) (hdy.resolve_left (hkey _ (by decide)))
  · exact hquote x.chunk.id (by simp [Candidate.texts]) (hdy.resolve_left (hkey _ (by decide)))
  · cases hpage : x.chunk.page with
    | none =>
        rw [hpage] at hy
        cases hy
    | some n =>
        rw [hpage] at hy
        cases List.mem_singleton.mp hy
        exact absurd (hdy.resolve_left (hkey _ (by decide))) (hint n)

/-- Without separators the file is cut into the lines that were written. -/
theorem splitLines_of_plain {xs : List Candidate}
    (h : ∀ x ∈ xs, ∀ s ∈ x.texts, ∀ d ∈ s, isSeparator d = false) :
    splitLines (unlines (xs.map (Candidate.line c))) = xs.map (Candidate.line c) := by
  apply splitLines_unlines
  intro l hl d hd
  obtain ⟨x, hx, rfl⟩ := List.mem_map.mp hl
  rw [isBreak_of_mem_dumps hd]
  by_contra hsep
  rw [Bool.not_eq_false] at hsep
  obtain ⟨s, hs, hds⟩ := mem_texts_of_mem_line hsep hd
  rw [h x hx s hs d hds] at hsep
  cases hsep

/-! ## Loading back -/

/-- A synthesis that returns has kept something. -/
theorem selected_ne_nil
    (h : synthesizeFromChunks c .ragEval system outputs embedded = .ok (text, n)) :
    selected c outputs ≠ [] := by
  have hitems := allItems_ne_nil h
  rw [allItems_ragEval] at hitems
  exact greedy_ne_nil (greedy_ne_nil fun hnil ↦ hitems (by rw [hnil]; rfl))

theorem matches_loaded (h : strip x.chunk.filename = x.chunk.filename) :
    Matches (x.row c) (x.loaded c) := by
  obtain ⟨hq, hfile, hlang⟩ := getField_row (c := c) (x := x)
  refine ⟨hq, ?_, hlang⟩
  rw [hfile, Candidate.loaded, h]

/-- A set that a synthesis has written loads back if and only if nothing that is kept holds a
line separator, every filename is stripped and not empty, and not too many questions are
kept. -/
theorem loadsBack_iff
    (h : synthesizeFromChunks c .ragEval system outputs embedded = .ok (text, n)) :
    LoadsBack c (finalRows c .ragEval system outputs) text n ↔ Loadable c outputs := by
  have hpos := List.length_pos_iff.mpr (selected_ne_nil h)
  obtain ⟨rfl, rfl⟩ := synthesizeFromChunks_ok h
  have hq : ∀ x ∈ selected c outputs, x.question ≠ [] ∧ strip x.question = x.question :=
    fun x hx ↦ question_stripped hx
  have hrows : finalRows c .ragEval system outputs = (selected c outputs).map (Candidate.row c) :=
    keptRows_ragEval
  rw [LoadsBack, writeRows_ragEval, loadQuestions_unlines, hrows, List.length_map]
  constructor
  · rintro ⟨questions, hload, hlen, hmatch⟩
    rw [parseQuestions] at hload
    split at hload
    · cases hload
    next ys hparse =>
    split at hload
    · next hsize =>
        cases hload
        have hplain := plain_of_parseLines hparse
        refine ⟨hlen ▸ hsize.2, hplain, ?_⟩
        rw [splitLines_of_plain hplain] at hparse
        have hfile : ∀ x ∈ selected c outputs, strip x.chunk.filename ≠ [] := by
          intro x hx
          obtain ⟨j, y, hy⟩ := parseQuestion_of_mem hparse (List.mem_map_of_mem hx) strip_line
          exact ((parseQuestion_line (hq x hx) j y).mp hy).1
        rw [parseLines_lines hq hfile] at hparse
        cases hparse
        rw [List.forall₂_map_left_iff, List.forall₂_map_right_iff, List.forall₂_same] at hmatch
        intro x hx
        obtain ⟨-, hgete, -⟩ := getField_row (c := c) (x := x)
        have hname := (hmatch x hx).expectedFile
        rw [hgete, Option.some.injEq, Json.str.injEq] at hname
        have hname : x.chunk.filename = strip x.chunk.filename := hname
        refine ⟨?_, hname.symm⟩
        rw [hname]
        exact hfile x hx
    · cases hload
  · intro hl
    have hfile : ∀ x ∈ selected c outputs, strip x.chunk.filename ≠ [] := by
      intro x hx
      rw [(hl.named x hx).2]
      exact (hl.named x hx).1
    refine ⟨(selected c outputs).map (Candidate.loaded c), ?_, List.length_map _, ?_⟩
    · rw [parseQuestions, splitLines_of_plain hl.plain, parseLines_lines hq hfile]
      simp only [List.length_map]
      exact if_pos ⟨hpos, hl.few⟩
    · rw [List.forall₂_map_left_iff, List.forall₂_map_right_iff, List.forall₂_same]
      exact fun x hx ↦ matches_loaded (hl.named x hx).2

/-! ## A line separator in an answer -/

/-- A chunk of a price list. -/
def priceChunk : Chunk :=
  { id := str "c1"
    text := str "The desk: 120.00 (2023: 110.00, 2022: 100.00). The chair: 45.00 (2023: 40.00, 2022: 35.00)."
    page := some 2
    filename := str "prices.pdf" }

/-- A generator's output for it, with one item and its answer. -/
def priceOutput (answer : Str) : List (Chunk × Option Str) :=
  [(priceChunk, some (str "[\x7b\"question\": \"Desk?\", \"answer\": \"" ++ answer ++
    str "\"\x7d]"))]

/-- The file of such an output. -/
def priceFile (answer : Str) : Str :=
  str "\x7b\"q\": \"Desk?\", \"expected_file\": \"prices.pdf\", " ++
    str "\"lang\": \"en\", \"answer\": \"" ++ answer ++
    str "\", \"source_chunk_id\": \"c1\", \"expected_page\": 2\x7d\n"

/-- `loadsBack_iff` at an answer on one line. -/
theorem loadsBack_priceFile :
    LoadsBack .sample (finalRows .sample .ragEval none (priceOutput (str "120 €")))
      (priceFile (str "120 €")) 1 := by
  have hfile : synthesizeFromChunks .sample .ragEval none (priceOutput (str "120 €")) true =
      .ok (priceFile (str "120 €"), 1) := by
    simp only [priceOutput, priceChunk, priceFile]
    repeat rw [str_ofList]
    with_unfolding_all decide
  refine (loadsBack_iff hfile).mpr ?_
  simp only [priceOutput, priceChunk]
  repeat rw [str_ofList]
  exact ⟨by decide, by decide, by decide⟩

/-- An answer with a line separator in it is written, and the file is refused. -/
theorem priceFile_refused :
    synthesizeFromChunks .sample .ragEval none (priceOutput (str "120\u2028€")) true =
        .ok (priceFile (str "120\u2028€"), 1) ∧
      loadQuestions .sample (priceFile (str "120\u2028€")) =
        .error "Line 1 is not valid JSON." ∧
      ¬LoadsBack .sample (finalRows .sample .ragEval none (priceOutput (str "120\u2028€")))
        (priceFile (str "120\u2028€")) 1 := by
  have hfile : synthesizeFromChunks .sample .ragEval none (priceOutput (str "120\u2028€")) true =
      .ok (priceFile (str "120\u2028€"), 1) := by
    simp only [priceOutput, priceChunk, priceFile]
    repeat rw [str_ofList]
    with_unfolding_all decide
  have hload : loadQuestions .sample (priceFile (str "120\u2028€")) =
      .error "Line 1 is not valid JSON." := by
    simp only [priceFile]
    repeat rw [str_ofList]
    decide
  refine ⟨hfile, hload, ?_⟩
  rintro ⟨questions, hok, -⟩
  rw [hload] at hok
  cases hok

end Adapta.Datasets
