import Adapta.Lib.System
import Adapta.Datasets.Synthesis

/-!
# Eval sets

The operations of `adapta/api/v1/datasets.py` and `adapta/api/v1/synthesis.py` that make a
dataset `valid`: an upload with its validation in the background, a synthesis, and the
curation of a valid dataset.  `upload_adapter` takes any valid dataset, and
`process_adapter` scores an adapter on it if the task is `classify` or `extract`.

An upload is checked for its number of rows, and validated for its task.  A curation is
validated without its task and not counted, and a synthesis only has a maximum.  So a set
the gate scores on is well formed in every run in which curations and syntheses meet what
uploads are held to (`gateable_wellFormed`), and not in all (`curatedRun_illFormed`).

## What is abstracted

* Projects, users, names and paths; each dataset has a file of its own.
* An upload is its decoded text, or `none` if it is not UTF-8.
-/

namespace Adapta.Datasets

open Lib
open Adapters (EvalTask)

/-! ## The system -/

abbrev DatasetId := Nat

inductive DatasetStatus where
  | uploaded
  | validating
  | valid
  | invalid
deriving DecidableEq, Repr

def DatasetStatus.value : DatasetStatus → String
  | .uploaded => "uploaded"
  | .validating => "validating"
  | .valid => "valid"
  | .invalid => "invalid"

inductive DatasetKind where
  | upload
  | ragEval
  | behavior
deriving DecidableEq, Repr

/-- A row of `datasets`, with its file. -/
structure Dataset where
  status : DatasetStatus
  task : Option EvalTask
  kind : DatasetKind
  numSamples : Option Nat
  validationError : Option String
  sourceDatasetId : Option DatasetId
  /-- The text of the file at `storage_path`. -/
  content : Option Str

/-- The background task of a synthesis. -/
structure SynthesisTask where
  dataset : DatasetId
  mode : Mode
  systemPrompt : Option Str
deriving DecidableEq

structure State where
  datasets : DatasetId → Option Dataset
  /-- All ids below it have been used. -/
  next : DatasetId
  /-- Background tasks that have not run. -/
  validations : List DatasetId
  syntheses : List SynthesisTask

def State.init : State :=
  { datasets := fun _ ↦ none, next := 0, validations := [], syntheses := [] }

/-- Why a request is refused. -/
inductive Error where
  | invalidRequest (message : String)
  | notFound (message : String)
  /-- An exception that is no `DomainError`. -/
  | internal
deriving DecidableEq, Repr

/-- What the background task of a synthesis meets. -/
inductive Generation where
  /-- `load_chunks` finds none. -/
  | noChunks
  /-- The output of the generator for each chunk, and whether the embedding succeeds. -/
  | outputs (l : List (Chunk × Option Str)) (embedded : Bool)

/-- An operation. -/
inductive Act where
  | upload (filename task : String) (file : Option Str)
  /-- `_validate_in_background`. -/
  | validate (d : DatasetId)
  | synthesize (mode task : String) (nPairsPerChunk : Nat) (systemPrompt : Option Str)
  /-- `_run_synthesis`. -/
  | runSynthesis (t : SynthesisTask) (g : Generation)
  | curate (d : DatasetId) (rows : List Fields)

/-- The membership test of `check_task`. -/
def taskOf : String → Option EvalTask
  | "classify" => some .classify
  | "extract" => some .extract
  | "freeform" => some .freeform
  | _ => none

/-- The task and the kind a synthesized dataset is registered with. -/
def Mode.task : Mode → Option EvalTask
  | .ragEval => none
  | .behavior task => some task

def Mode.kind : Mode → DatasetKind
  | .ragEval => .ragEval
  | .behavior _ => .behavior

namespace State

variable (c : Config) (s : State)

/-- A row is added. -/
def insert (ds : Dataset) : State :=
  { s with datasets := Function.update s.datasets s.next (some ds), next := s.next + 1 }

/-- A row is changed. -/
def setDataset (d : DatasetId) (ds : Dataset) : State :=
  { s with datasets := Function.update s.datasets d (some ds) }

/-- `upload_dataset`. -/
def uploadDataset (filename task : String) (file : Option Str) : Except Error State :=
  match taskOf task with
  | none => .error (.invalidRequest "task must be one of: classify, extract, freeform.")
  | some task =>
      if ¬".jsonl".toList.isSuffixOf filename.toList then
        .error (.invalidRequest "Dataset must be a .jsonl file.")
      else
        match file with
        | none => .error .internal
        | some text =>
            match checkEvalSetSize c text with
            | .error message => .error (.invalidRequest message)
            | .ok _ => .ok
                { s.insert
                  { status := .validating, task := some task, kind := .upload, numSamples := none
                    validationError := none, sourceDatasetId := none, content := some text } with
                  validations := s.next :: s.validations }

/-- `_validate_in_background`. -/
def validateInBackground (d : DatasetId) : State :=
  let s' := { s with validations := s.validations.erase d }
  match s.datasets d with
  | none => s'
  | some ds =>
      let r := validateDataset c (ds.content.getD []) ds.task
      s'.setDataset d
        { ds with
          status := if r.1 then .valid else .invalid
          validationError := r.2.1
          numSamples := some r.2.2 }

/-- `check_synthesis_args`. -/
def checkSynthesisArgs (mode task : String) (nPairsPerChunk : Nat) : Except Error Mode :=
  let checked : Except Error Mode :=
    if mode = "rag_eval" then .ok .ragEval
    else if mode = "behavior" then
      match taskOf task with
      | some task => .ok (.behavior task)
      | none => .error (.invalidRequest "task must be one of: classify, extract, freeform.")
    else .error (.invalidRequest "mode must be 'rag_eval' or 'behavior'.")
  match checked with
  | .error e => .error e
  | .ok mode =>
      if 1 ≤ nPairsPerChunk ∧ nPairsPerChunk ≤ 10 then .ok mode
      else .error (.invalidRequest "n_pairs_per_chunk must be between 1 and 10")

/-- `synthesize_dataset`. -/
def synthesizeDataset (mode task : String) (nPairsPerChunk : Nat) (systemPrompt : Option Str) :
    Except Error State :=
  match checkSynthesisArgs mode task nPairsPerChunk with
  | .error e => .error e
  | .ok mode => .ok
      { s.insert
        { status := .validating, task := mode.task, kind := mode.kind, numSamples := none
          validationError := none, sourceDatasetId := none, content := none } with
        syntheses := ⟨s.next, mode, systemPrompt⟩ :: s.syntheses }

/-- `_run_synthesis`. -/
def runSynthesis (t : SynthesisTask) (g : Generation) : State :=
  let s' := { s with syntheses := s.syntheses.erase t }
  match s.datasets t.dataset with
  | none => s'
  | some ds =>
      let result : Except Failure (Str × Nat) := match g with
        | .noChunks => .error
            (.domain "No indexed chunks found for this project. Upload files first.")
        | .outputs l embedded => synthesizeFromChunks c t.mode t.systemPrompt l embedded
      s'.setDataset t.dataset (match result with
        | .ok x => { ds with content := some x.1, numSamples := some x.2, status := .valid }
        | .error (.domain message) =>
            { ds with status := .invalid, validationError := some message }
        | .error .crash =>
            { ds with status := .invalid, validationError := some "Synthesis failed" })

/-- `curate_dataset`. -/
def curateDataset (d : DatasetId) (rows : List Fields) : Except Error State :=
  match s.datasets d with
  | none => .error (.notFound "Dataset not found")
  | some source =>
      if source.status ≠ .valid then
        .error (.invalidRequest ("Dataset is not valid (status: " ++ source.status.value ++
          "). Only valid datasets can be reviewed or curated."))
      else if rows = [] then .error (.invalidRequest "rows must not be empty")
      else
        let text := writeRows true rows
        -- the task is not passed on
        let r := validateDataset c text none
        if r.1 then .ok (s.insert
          { status := .valid, task := source.task, kind := source.kind, numSamples := some r.2.2
            validationError := none, sourceDatasetId := some d, content := some text })
        else .error (.invalidRequest ("Curated rows failed validation: " ++ r.2.1.getD "None"))

/-- A request that is refused changes nothing. -/
def commit : Except Error State → State
  | .ok s' => s'
  | .error _ => s

end State

/-- One operation. -/
def step (c : Config) (s : State) : Act → Option State
  | .upload filename task file => some (s.commit (s.uploadDataset c filename task file))
  | .validate d => if d ∈ s.validations then some (s.validateInBackground c d) else none
  | .synthesize mode task nPairsPerChunk systemPrompt =>
      some (s.commit (s.synthesizeDataset mode task nPairsPerChunk systemPrompt))
  | .runSynthesis t g => if t ∈ s.syntheses then some (s.runSynthesis c t g) else none
  | .curate d rows => some (s.commit (s.curateDataset c d rows))

/-- The datasets of a project. -/
def system (c : Config) : System State Act := ⟨State.init, step c⟩

/-! ## Well-formed eval sets -/

/-- The number of rows is within the limits, and for `extract` every response holds a JSON
object.  The rows are those of `_read_jsonl`, and those of `read_eval_rows` if it returns. -/
def WellFormed (c : Config) (task : EvalTask) (text : Str) : Prop :=
  ∃ rows : List Fields, readJsonl c text = some (rows.map .obj) ∧
    (∀ rows', readEvalRows c text = some rows' → rows' = rows.map .obj) ∧
    c.evalMinRows ≤ rows.length ∧ rows.length ≤ c.evalMaxRows ∧
    (task = .extract → ∀ l ∈ rows, ∃ s, getField l (str "response") = some (.str s) ∧
      (parseJsonObject c s).isSome)

/-- `upload_adapter` accepts the dataset, and `process_adapter` scores on it. -/
structure Gateable (ds : Dataset) (task : EvalTask) : Prop where
  valid : ds.status = .valid
  hasTask : ds.task = some task
  gates : task = .classify ∨ task = .extract

/-- The row's response, as the row is written and read back, holds a JSON object. -/
def rowParses (c : Config) (row : Fields) : Bool :=
  match loads c.canon (dumps true (.obj row)) with
  | some (.obj l) => responseParses c l
  | _ => false

/-- What an upload for the task is held to. -/
def rowsOk (c : Config) (task : EvalTask) (rows : List Fields) : Bool :=
  c.evalMinRows ≤ rows.length && rows.length ≤ c.evalMaxRows &&
    (task ≠ .extract || rows.all (rowParses c))

/-- A curation for a task that gates supplies rows that an upload could have, and a
synthesis for one ends with enough rows. -/
def checked (c : Config) (s : State) : Act → Bool
  | .curate d rows =>
      match (s.datasets d).bind Dataset.task with
      | some .freeform | none => true
      | some task => rowsOk c task rows
  | .runSynthesis t (.outputs l _) =>
      match t.mode with
      | .ragEval | .behavior .freeform => true
      | .behavior task =>
          c.evalMinRows ≤ (finalRows c (.behavior task) t.systemPrompt l).length
  | _ => true

def Checked (c : Config) (s : State) (a : Act) : Prop := checked c s a = true

instance (c : Config) (s : State) (a : Act) : Decidable (Checked c s a) :=
  inferInstanceAs (Decidable (_ = true))

variable {c : Config} {s s' : State} {task : EvalTask} {text : Str} {ds : Dataset} {d : DatasetId}

theorem wellFormed_of_lineOk (hok : ∀ line ∈ rowLines text, LineOk c (some task) line)
    (hlo : c.evalMinRows ≤ (rowLines text).length) (hhi : (rowLines text).length ≤ c.evalMaxRows) :
    WellFormed c task text := by
  obtain ⟨rows, hread, hlen, hresp, heval⟩ := rows_of_lineOk hok
  refine ⟨rows, hread, heval, hlen ▸ hlo, hlen ▸ hhi, ?_⟩
  rintro rfl l hl
  obtain ⟨s, hs, hparse⟩ := hresp l hl
  exact ⟨s, hs, hparse rfl⟩

/-! ### Each of the three -/

/-- An upload within the limits that is valid for its task. -/
theorem wellFormed_of_upload (hlo : c.evalMinRows ≤ (rowLines text).length)
    (hhi : (rowLines text).length ≤ c.evalMaxRows)
    (h : (validateDataset c text (some task)).1 = true) : WellFormed c task text :=
  wellFormed_of_lineOk (validateDataset_spec h).1 hlo hhi

/-- A curation of rows that an upload could have. -/
theorem wellFormed_of_curate {rows : List Fields} (hrows : rowsOk c task rows = true)
    (h : (validateDataset c (writeRows true rows) none).1 = true) :
    WellFormed c task (writeRows true rows) := by
  simp only [rowsOk, Bool.and_eq_true, decide_eq_true_eq, Bool.or_eq_true] at hrows
  obtain ⟨⟨hlo, hhi⟩, hparse⟩ := hrows
  have hlines := rowLines_writeRows true rows
  refine wellFormed_of_lineOk ?_ (by simpa [hlines] using hlo) (by simpa [hlines] using hhi)
  intro line hline
  obtain ⟨l, hload, s, hs, -⟩ := (validateDataset_spec h).1 line hline
  refine ⟨l, hload, s, hs, ?_⟩
  intro ht
  cases ht
  rw [hlines] at hline
  obtain ⟨row, hrow, rfl⟩ := List.mem_map.mp hline
  have hp := List.all_eq_true.mp (hparse.resolve_left (by simp)) row hrow
  rw [strip_rowLine] at hload
  simpa [rowParses, hload, responseParses, hs] using hp

/-- A synthesis that ends with enough rows. -/
theorem wellFormed_of_synthesis {systemPrompt : Option Str} {l : List (Chunk × Option Str)}
    {embedded : Bool} {n : Nat}
    (h : synthesizeFromChunks c (.behavior task) systemPrompt l embedded = .ok (text, n))
    (hlo : c.evalMinRows ≤ (finalRows c (.behavior task) systemPrompt l).length) :
    WellFormed c task text := by
  obtain ⟨rfl, -⟩ := synthesizeFromChunks_ok h
  have hlines := rowLines_writeRows false (finalRows c (.behavior task) systemPrompt l)
  refine wellFormed_of_lineOk ?_ (by simpa [hlines] using hlo) ?_
  · intro line hline
    rw [hlines] at hline
    obtain ⟨row, hrow, rfl⟩ := List.mem_map.mp hline
    exact lineOk_of_finalRows hrow
  · rw [hlines, List.length_map]
    exact List.length_take_le _ _

/-! ## The invariant -/

structure Inv (c : Config) (s : State) : Prop where
  fresh : ∀ d ds, s.datasets d = some ds → d < s.next
  wellFormed : ∀ d ds task, s.datasets d = some ds → Gateable ds task →
    ∃ text, ds.content = some text ∧ WellFormed c task text
  /-- An upload that is not validated yet is within the limits. -/
  validations : ∀ d ∈ s.validations, ∃ ds text, s.datasets d = some ds ∧ ds.kind = .upload ∧
    ds.content = some text ∧ c.evalMinRows ≤ (rowLines text).length ∧
    (rowLines text).length ≤ c.evalMaxRows
  /-- A dataset that is not synthesized yet has the task of the synthesis. -/
  syntheses : ∀ t ∈ s.syntheses, ∃ ds, s.datasets t.dataset = some ds ∧ ds.kind ≠ .upload ∧
    ds.task = t.mode.task

theorem Inv.init : Inv c State.init where
  fresh := by rintro d ds ⟨⟩
  wellFormed := by rintro d ds task ⟨⟩
  validations := by rintro d ⟨⟩
  syntheses := by rintro t ⟨⟩

/-- What `insert` does to the rows there are. -/
theorem Inv.insert_ne (h : Inv c s) {new : Dataset} (hd : s.datasets d = some ds) :
    (s.insert new).datasets d = some ds := by
  have hlt := h.fresh d ds hd
  exact (Function.update_of_ne (Nat.ne_of_lt hlt) _ _).trans hd

theorem datasets_insert {new : Dataset} (hd : (s.insert new).datasets d = some ds) :
    s.datasets d = some ds ∨ d = s.next ∧ ds = new := by
  by_cases hdn : d = s.next
  · subst hdn
    simp only [State.insert, Function.update_self, Option.some.injEq] at hd
    exact .inr ⟨rfl, hd.symm⟩
  · exact .inl ((Function.update_of_ne hdn _ _).symm.trans hd)

/-- A new row, which is well formed if it gates, and its background tasks. -/
theorem Inv.insert (h : Inv c s) {new : Dataset} {vs : List DatasetId} {ts : List SynthesisTask}
    (hnew : ∀ task, Gateable new task → ∃ text, new.content = some text ∧ WellFormed c task text)
    (hvs : ∀ d ∈ vs, d ∈ s.validations ∨ d = s.next ∧ ∃ text, new.kind = .upload ∧
      new.content = some text ∧ c.evalMinRows ≤ (rowLines text).length ∧
      (rowLines text).length ≤ c.evalMaxRows)
    (hts : ∀ t ∈ ts, t ∈ s.syntheses ∨ t.dataset = s.next ∧ new.kind ≠ .upload ∧
      new.task = t.mode.task) :
    Inv c { s.insert new with validations := vs, syntheses := ts } where
  fresh d ds hd := by
    rcases datasets_insert hd with hd | ⟨rfl, -⟩
    · exact Nat.lt_succ_of_lt (h.fresh d ds hd)
    · exact Nat.lt_succ_self _
  wellFormed d ds task hd hg := by
    rcases datasets_insert hd with hd | ⟨-, rfl⟩
    · exact h.wellFormed d ds task hd hg
    · exact hnew task hg
  validations d hd := by
    rcases hvs d hd with hd | ⟨rfl, text, hspec⟩
    · obtain ⟨ds, text, hds, hspec⟩ := h.validations d hd
      exact ⟨ds, text, h.insert_ne hds, hspec⟩
    · exact ⟨new, text, Function.update_self .., hspec⟩
  syntheses t ht := by
    rcases hts t ht with ht | ⟨heq, hspec⟩
    · obtain ⟨ds, hds, hspec⟩ := h.syntheses t ht
      exact ⟨ds, h.insert_ne hds, hspec⟩
    · exact ⟨new, heq ▸ Function.update_self .., hspec⟩

/-- The outcome of a background task, which is well formed if it gates.  The file of an upload
stays as it is. -/
theorem Inv.setDataset (h : Inv c s) {new : Dataset} {vs : List DatasetId}
    {ts : List SynthesisTask} (hd : s.datasets d = some ds)
    (hnew : ∀ task, Gateable new task → ∃ text, new.content = some text ∧ WellFormed c task text)
    (htask : new.task = ds.task) (hkind : new.kind = ds.kind)
    (hcontent : ds.kind = .upload → new.content = ds.content)
    (hvs : ∀ e ∈ vs, e ∈ s.validations) (hts : ∀ t ∈ ts, t ∈ s.syntheses) :
    Inv c (State.setDataset { s with validations := vs, syntheses := ts } d new) where
  fresh e ds' hds' := by
    by_cases hed : e = d
    · subst hed
      exact h.fresh e ds hd
    · exact h.fresh e ds' ((Function.update_of_ne hed _ _).symm.trans hds')
  wellFormed e ds' task hds' hg := by
    by_cases hed : e = d
    · subst hed
      simp only [State.setDataset, Function.update_self, Option.some.injEq] at hds'
      subst hds'
      exact hnew task hg
    · exact h.wellFormed e ds' task ((Function.update_of_ne hed _ _).symm.trans hds') hg
  validations e he := by
    obtain ⟨ds', text, hds', hup, htext, hspec⟩ := h.validations e (hvs e he)
    by_cases hed : e = d
    · subst hed
      cases hd.symm.trans hds'
      exact ⟨new, text, Function.update_self .., hkind.trans hup, (hcontent hup).trans htext, hspec⟩
    · exact ⟨ds', text, (Function.update_of_ne hed _ _).trans hds', hup, htext, hspec⟩
  syntheses t ht := by
    obtain ⟨ds', hds', hspec⟩ := h.syntheses t (hts t ht)
    by_cases htd : t.dataset = d
    · rw [htd] at hds'
      cases hd.symm.trans hds'
      refine ⟨new, htd ▸ Function.update_self .., hkind ▸ hspec.1, htask.trans hspec.2⟩
    · exact ⟨ds', (Function.update_of_ne htd _ _).trans hds', hspec⟩

/-! ## Operations -/

theorem Inv.uploadDataset (h : Inv c s) {filename task : String} {file : Option Str}
    (hn : s.uploadDataset c filename task file = .ok s') : Inv c s' := by
  simp only [State.uploadDataset] at hn
  split at hn
  · cases hn
  split at hn
  · cases hn
  split at hn
  · cases hn
  next text =>
  split at hn
  · cases hn
  next n hsize =>
  cases hn
  have hsize : c.evalMinRows ≤ (rowLines text).length ∧ (rowLines text).length ≤ c.evalMaxRows := by
    by_contra hno
    simp only [checkEvalSetSize, if_neg hno] at hsize
    cases hsize
  refine h.insert (fun task hg ↦ by cases hg.valid) ?_ fun t ht ↦ .inl ht
  intro d hd
  rcases List.mem_cons.mp hd with rfl | hd
  · exact .inr ⟨rfl, text, rfl, rfl, hsize⟩
  · exact .inl hd

theorem Inv.validateInBackground (h : Inv c s) (hd : d ∈ s.validations) :
    Inv c (s.validateInBackground c d) := by
  obtain ⟨ds, text, hds, hup, htext, hlo, hhi⟩ := h.validations d hd
  simp only [State.validateInBackground, hds]
  refine h.setDataset hds (fun task hg ↦ ⟨text, htext, ?_⟩) rfl rfl (fun _ ↦ rfl)
    (fun e he ↦ List.mem_of_mem_erase he) fun t ht ↦ ht
  have hvalid : (validateDataset c text (some task)).1 = true := by
    have hst := hg.valid
    have ht : ds.task = some task := hg.hasTask
    simp only [htext, Option.getD_some, ht] at hst
    by_contra hno
    rw [if_neg hno] at hst
    cases hst
  exact wellFormed_of_upload hlo hhi hvalid

theorem Inv.synthesizeDataset (h : Inv c s) {mode task : String} {n : Nat}
    {systemPrompt : Option Str} (hn : s.synthesizeDataset mode task n systemPrompt = .ok s') :
    Inv c s' := by
  simp only [State.synthesizeDataset] at hn
  split at hn <;> cases hn
  next mode hmode =>
  apply h.insert (fun task hg ↦ by cases hg.valid) (fun d hd ↦ .inl hd)
  intro t ht
  rcases List.mem_cons.mp ht with rfl | ht
  · refine .inr ⟨rfl, ?_, rfl⟩
    cases mode <;> rintro ⟨⟩
  · exact .inl ht

theorem Inv.runSynthesis (h : Inv c s) {t : SynthesisTask} {g : Generation} (ht : t ∈ s.syntheses)
    (hg : Checked c s (.runSynthesis t g)) : Inv c (s.runSynthesis c t g) := by
  obtain ⟨ds, hds, hkind, htask⟩ := h.syntheses t ht
  have hno : ∀ {P : Prop}, ds.kind = .upload → P := fun hup ↦ absurd hup hkind
  simp only [State.runSynthesis, hds]
  split
  · next x hx =>
      cases g with
      | noChunks => cases hx
      | outputs l embedded =>
          refine h.setDataset hds (fun task hgate ↦ ⟨x.1, rfl, ?_⟩) rfl rfl hno (fun e he ↦ he)
            fun u hu ↦ List.mem_of_mem_erase hu
          have hmode : t.mode.task = some task := htask.symm.trans hgate.hasTask
          cases hm : t.mode with
          | ragEval =>
              rw [hm] at hmode
              cases hmode
          | behavior task' =>
              rw [hm] at hmode
              cases hmode
              simp only [hm] at hx
              apply wellFormed_of_synthesis hx
              rcases hgate.gates with rfl | rfl <;> simpa [Checked, checked, hm] using hg
  all_goals
    exact h.setDataset hds (fun task hgate ↦ by cases hgate.valid) rfl rfl hno (fun e he ↦ he)
      fun u hu ↦ List.mem_of_mem_erase hu

theorem Inv.curateDataset (h : Inv c s) {rows : List Fields} (hg : Checked c s (.curate d rows))
    (hn : s.curateDataset c d rows = .ok s') : Inv c s' := by
  simp only [State.curateDataset] at hn
  split at hn
  · cases hn
  next source hsource =>
  split at hn
  · cases hn
  split at hn
  · cases hn
  split at hn <;> cases hn
  next hvalid =>
  refine h.insert (fun task hgate ↦ ⟨_, rfl, ?_⟩) (fun d hd ↦ .inl hd) fun t ht ↦ .inl ht
  have htask : source.task = some task := hgate.hasTask
  refine wellFormed_of_curate ?_ hvalid
  rcases hgate.gates with rfl | rfl <;> simpa [Checked, checked, hsource, htask] using hg

theorem Inv.commit (h : Inv c s) {r : Except Error State} (hr : ∀ s', r = .ok s' → Inv c s') :
    Inv c (s.commit r) := by
  cases r with
  | ok s' => exact hr s' rfl
  | error e => exact h

theorem Inv.step {a : Act} (h : Inv c s) (hg : Checked c s a)
    (hn : Datasets.step c s a = some s') : Inv c s' := by
  cases a with
  | upload filename task file =>
      cases hn
      exact h.commit fun s' hs' ↦ h.uploadDataset hs'
  | validate d =>
      simp only [Datasets.step, Option.ite_none_right_eq_some, Option.some.injEq] at hn
      obtain ⟨hd, rfl⟩ := hn
      exact h.validateInBackground hd
  | synthesize mode task n systemPrompt =>
      cases hn
      exact h.commit fun s' hs' ↦ h.synthesizeDataset hs'
  | runSynthesis t g =>
      simp only [Datasets.step, Option.ite_none_right_eq_some, Option.some.injEq] at hn
      obtain ⟨ht, rfl⟩ := hn
      exact h.runSynthesis ht hg
  | curate d rows =>
      cases hn
      exact h.commit fun s' hs' ↦ h.curateDataset hg hs'

/-- **Eval sets are well formed.**  In every run in which curations for a task that gates
supply rows that an upload could have, and syntheses for one end with enough rows, every
dataset the gate scores on has a number of rows within the limits, and for `extract`
responses that hold a JSON object. -/
theorem gateable_wellFormed (c : Config) (s : State) (h : (system c).Reach (Checked c) s)
    (d : DatasetId) (ds : Dataset) (task : EvalTask) (hd : s.datasets d = some ds)
    (hg : Gateable ds task) : ∃ text, ds.content = some text ∧ WellFormed c task text := by
  have hinv : Inv c s := h.invariant Inv.init fun _ _ _ hs hg hn ↦ hs.step hg hn
  exact hinv.wellFormed d ds task hd hg

/-- A row of an `extract` set. -/
def invoiceRow : Fields :=
  [(str "prompt", .str (str "Total of the invoice?")),
    (str "response", .str (str "\x7b\"total\": 12\x7d"))]

/-- An `extract` set is uploaded and validated, and all of it is curated. -/
def recuratedRun : List Act :=
  [.upload "set.jsonl" "extract" (some (writeRows true (List.replicate 20 invoiceRow))),
    .validate 0, .curate 0 (List.replicate 20 invoiceRow)]

/-- A dataset is valid and has a given task. -/
def Dataset.gates (task : EvalTask) (ds : Dataset) : Bool :=
  ds.status = .valid && ds.task = some task

theorem gateable_of_gates (h : ds.gates task = true) (ht : task = .classify ∨ task = .extract) :
    Gateable ds task := by
  simp only [Dataset.gates, Bool.and_eq_true, decide_eq_true_eq] at h
  exact ⟨h.1, h.2, ht⟩

/-- The hypotheses of `gateable_wellFormed` are met by a run with an upload and a curation. -/
theorem gateable_recuratedRun : ∃ s ds, (system .sample).Reach (Checked .sample) s ∧
    s.datasets 1 = some ds ∧ Gateable ds .extract ∧
    ∃ text, ds.content = some text ∧ WellFormed .sample .extract text := by
  obtain ⟨s, hs, hr⟩ := System.Reach.of_exec (S := system .sample) (g := Checked .sample)
    (l := recuratedRun) (f := fun s ↦ (s.datasets 1).any (Dataset.gates .extract)) (b := true)
    (by decide)
  obtain ⟨ds, hds, hgates⟩ := (Option.any_eq_true _ _).mp hr
  have hg := gateable_of_gates hgates (.inr rfl)
  exact ⟨s, ds, hs, hds, hg, gateable_wellFormed .sample s hs 1 ds .extract hds hg⟩

/-- A row whose response is no JSON object. -/
def plainRow : Fields :=
  [(str "prompt", .str (str "Total of the invoice?")), (str "response", .str (str "twelve"))]

/-- An `extract` set is uploaded and validated, and one row of plain text is curated. -/
def curatedRun : List Act :=
  [.upload "set.jsonl" "extract" (some (writeRows true (List.replicate 20 invoiceRow))),
    .validate 0, .curate 0 [plainRow]]

/-- A set for `classify` is synthesized from one statement. -/
def oneStatementRun : List Act :=
  [.synthesize "behavior" "classify" 3 none,
    .runSynthesis ⟨0, .behavior .classify, none⟩ (.outputs
      [(⟨str "0", str "The total is 12.", none, str "a.txt"⟩,
        some (str "[\x7b\"statement\": \"The total is 12\", \"label\": \"yes\"\x7d]"))] true)]

/-- A file with too few rows is not well formed. -/
theorem not_wellFormed_of_length {n : Nat} (h : (readJsonl c text).map List.length = some n)
    (hn : n < c.evalMinRows) : ¬WellFormed c task text := by
  rintro ⟨rows, hread, -, hlo, -⟩
  rw [hread, Option.map_some, Option.some.injEq, List.length_map] at h
  omega

/-- Not every eval set is well formed: a curation leaves an `extract` set with one row, whose
response is no JSON object, and a synthesis a `classify` set with one row. -/
theorem curatedRun_illFormed :
    (∃ s ds text, (system .sample).Reachable s ∧ s.datasets 1 = some ds ∧ Gateable ds .extract ∧
      ds.content = some text ∧ text = writeRows true [plainRow] ∧
      parseJsonObject .sample (str "twelve") = none ∧ ¬WellFormed .sample .extract text) ∧
    ∃ s ds text, (system .sample).Reachable s ∧ s.datasets 0 = some ds ∧ Gateable ds .classify ∧
      ds.content = some text ∧ ¬WellFormed .sample .classify text := by
  constructor
  · obtain ⟨s, hs, hr⟩ := System.Reach.of_exec (S := system .sample) (g := fun _ _ ↦ True)
      (l := curatedRun)
      (f := fun s ↦ (s.datasets 1).any fun ds ↦
        ds.gates .extract && ds.content = some (writeRows true [plainRow]))
      (b := true) (by decide)
    obtain ⟨ds, hds, hprop⟩ := (Option.any_eq_true _ _).mp hr
    simp only [Bool.and_eq_true, decide_eq_true_eq] at hprop
    have hlen : (readJsonl .sample (writeRows true [plainRow])).map List.length = some 1 := by
      decide
    have hparse : parseJsonObject .sample (str "twelve") = none := by
      have hnone : (parseJsonObject .sample (str "twelve")).isNone = true := by decide
      exact Option.isNone_iff_eq_none.mp hnone
    exact ⟨s, ds, _, hs, hds, gateable_of_gates hprop.1 (.inr rfl), hprop.2, rfl, hparse,
      not_wellFormed_of_length hlen (by decide)⟩
  · obtain ⟨s, hs, hr⟩ := System.Reach.of_exec (S := system .sample) (g := fun _ _ ↦ True)
      (l := oneStatementRun)
      (f := fun s ↦ (s.datasets 0).any fun ds ↦ ds.gates .classify &&
        ds.content.any fun text ↦ (readJsonl .sample text).map List.length = some 1)
      (b := true) (by
        set_option maxRecDepth 10000 in
        with_unfolding_all decide)
    obtain ⟨ds, hds, hprop⟩ := (Option.any_eq_true _ _).mp hr
    rw [Bool.and_eq_true] at hprop
    obtain ⟨text, htext, hlen⟩ := (Option.any_eq_true _ _).mp hprop.2
    exact ⟨s, ds, text, hs, hds, gateable_of_gates hprop.1 (.inl rfl), htext,
      not_wellFormed_of_length (of_decide_eq_true hlen) (by decide)⟩

end Adapta.Datasets
