import Adapta.Lib.Settled
import Adapta.Lib.Margin
import Adapta.Datasets.Selection

/-!
# Behavior sets

`_run_synthesis` marks a synthesized set valid without a look at the file.  For the mode
`behavior` it may: `validate_dataset` accepts whatever the row builders make of the output of
the generator, `read_eval_rows` returns the rows that were built, and the values of an
`extract` response stand in the passage that the prompt begins with (`behaviorSet_checks`).
The one set that is not valid is the empty one, which is written if the limit on the number of
rows is zero (`emptySet_invalid`).
-/

namespace Adapta.Datasets

open Lib
open Adapters (EvalTask)

variable {c : Config} {task : EvalTask} {system : Option Str} {outputs : List (Chunk × Option Str)}
  {embedded : Bool} {text : Str} {n : Nat} {raw : Str} {chunk : Chunk}

/-- The value is a string or a number, and it is quoted from the passage up to case and white
space. -/
def Quoted (c : Config) (passage : Str) (v : Json) : Prop :=
  ∃ s, valueText v = some s ∧ normWs c s <:+: normWs c passage

/-- The row's prompt begins with the passage, and its response is an object with values that
are quoted from it. -/
def Extracts (c : Config) (passage : Str) (row : Fields) : Prop :=
  ∃ rest response fields, getField row (str "prompt") = some (.str (passage ++ rest)) ∧
    getField row (str "response") = some (.str response) ∧
    parseJsonObject c response = some fields ∧ ∀ x ∈ fields, Quoted c passage x.2

/-- What is promised of the set of `n` rows that a synthesis has written. -/
structure Checks (c : Config) (task : EvalTask) (system : Option Str)
    (outputs : List (Chunk × Option Str)) (text : Str) (n : Nat) : Prop where
  valid : validateDataset c text (some task) = (true, none, n)
  read : ∃ rows : List Fields, readEvalRows c text = some (rows.map .obj) ∧ rows.length = n ∧
    -- the rows are those that were built, in their order
    rows.Sublist ((allItems c (.behavior task) system outputs).map Prod.snd) ∧
    ∀ row ∈ rows, ∃ x ∈ outputs, ∃ raw key, x.2 = some raw ∧
      (key, row) ∈ behaviorRows c raw x.1 task system ∧
      (task = .extract → Extracts c (x.1.text.take maxChunkChars) row)

/-! ## The rows that are built -/

/-- A text with a character that is no white space. -/
theorem strip_append_ne_nil {s t : Str} (h : strip t ≠ []) : strip (s ++ t) ≠ [] := by
  obtain ⟨d, hd, hspace⟩ := strip_ne_nil_iff.mp h
  exact strip_ne_nil_iff.mpr ⟨d, List.mem_append_right _ hd, hspace⟩

theorem ne_nil_of_strip {s : Str} (h : strip s ≠ []) : s ≠ [] := by
  rintro rfl
  exact h rfl

theorem strip_extractPairs {x : Str × Str} (hx : x ∈ extractPairs c raw) :
    strip x.1 ≠ [] ∧ strip x.2 ≠ [] := by
  obtain ⟨l, -, hl⟩ := List.mem_filterMap.mp hx
  split at hl
  · split at hl
    · next hne =>
        cases hl
        rw [strip_strip, strip_strip]
        exact hne
    · cases hl
  · cases hl

theorem strip_dumps_ne_nil (l : Fields) : strip (dumps false (.obj l)) ≠ [] := by
  obtain ⟨body, hbody⟩ := dumps_obj false l
  rw [strip_dumps_obj, hbody]
  exact List.cons_ne_nil _ _

theorem strip_classifyItem {passage : Str} {l : Fields} {x : Str × Str × Str}
    (hx : classifyItem c passage l = some x) : strip x.2.1 ≠ [] ∧ strip x.2.2 ≠ [] := by
  simp only [classifyItem] at hx
  split at hx
  · split at hx
    · next hlabel =>
        cases hx
        refine ⟨strip_append_ne_nil (by decide), ?_⟩
        have hyes : strip (str "yes") ≠ [] := by decide
        have hno : strip (str "no") ≠ [] := by decide
        rcases hlabel.2 with heq | heq
        · rw [heq]
          exact hyes
        · rw [heq]
          exact hno
    · cases hx
  · cases hx

/-- An item of the task `extract`. -/
structure ExtractSpec (c : Config) (passage : Str) (x : Str × Str × Str) (fields : Fields) :
    Prop where
  prompt : ∃ rest, x.2.1 = passage ++ rest ∧ strip rest ≠ []
  response : x.2.2 = dumps false (.obj fields)
  quoted : ∀ y ∈ fields, Quoted c passage y.2

theorem extractItem_spec {passage : Str} {l : Fields} {x : Str × Str × Str}
    (hx : extractItem c passage l = some x) :
    ∃ fields, getField l (str "fields") = some (.obj fields) ∧
      ExtractSpec c passage x fields := by
  simp only [extractItem] at hx
  split at hx
  · next ins fields _ hfields =>
      split at hx
      · next hspec =>
          cases hx
          refine ⟨fields, hfields, ⟨str "\n\n" ++ strip ins ++
            str "\nRespond with a JSON object only.", ?_, ?_⟩, rfl, ?_⟩
          · simp only [List.append_assoc]
          · exact strip_append_ne_nil (by decide)
          · intro y hy
            have hany := List.all_eq_true.mp hspec.2.2 y hy
            cases hv : valueText y.2 with
            | none =>
                rw [hv] at hany
                cases hany
            | some v =>
                rw [hv, Option.any_some] at hany
                exact ⟨v, hv, of_decide_eq_true hany⟩
      · cases hx
  · cases hx

/-- A prompt and a response that `validate_dataset` accepts for the task. -/
structure Good (c : Config) (task : EvalTask) (prompt response : Str) : Prop where
  hasPrompt : strip prompt ≠ []
  hasResponse : strip response ≠ []
  parses : task = .extract → (parseJsonObject c response).isSome

/-- The rows that are built are good. -/
theorem good_behaviorRows {x : Str × Fields} (hx : x ∈ behaviorRows c raw chunk task system) :
    ∃ prompt response, x.2 = behaviorRow system prompt response ∧ Good c task prompt response := by
  obtain ⟨⟨key, prompt, response⟩, hitem, rfl⟩ := List.mem_map.mp hx
  refine ⟨prompt, response, rfl, ?_⟩
  cases task with
  | classify =>
      obtain ⟨l, -, hl⟩ := List.mem_filterMap.mp hitem
      obtain ⟨hp, hr⟩ := strip_classifyItem hl
      exact ⟨hp, hr, by rintro ⟨⟩⟩
  | extract =>
      obtain ⟨l, -, hl⟩ := List.mem_filterMap.mp hitem
      obtain ⟨fields, -, ⟨rest, hprompt, hrest⟩, hresponse, -⟩ := extractItem_spec hl
      have hprompt : prompt = chunk.text.take maxChunkChars ++ rest := hprompt
      have hresponse : response = dumps false (.obj fields) := hresponse
      rw [hprompt, hresponse]
      exact ⟨strip_append_ne_nil hrest, strip_dumps_ne_nil fields,
        fun _ ↦ parseJsonObject_dumps fields⟩
  | freeform =>
      obtain ⟨y, hy, heq⟩ := List.mem_map.mp hitem
      cases heq
      obtain ⟨hq, ha⟩ := strip_extractPairs hy
      exact ⟨strip_append_ne_nil hq, ha, by rintro ⟨⟩⟩

/-! ## Validation -/

theorem getField_behaviorRow_prompt (prompt response : Str) :
    getField (behaviorRow system prompt response) (str "prompt") = some (.str prompt) := by
  simp [getField, behaviorRow]

theorem schemaOk_behaviorRow {prompt response : Str} (hp : strip prompt ≠ [])
    (hr : strip response ≠ []) : schemaOk (behaviorRow system prompt response) = true := by
  have hsystem : ∀ s, propertyOk (str "system") (.str s) = true := by
    intro s
    rw [propertyOk, if_neg (by decide), if_pos rfl]
  have hprompt : propertyOk (str "prompt") (.str prompt) = true := by
    simp [propertyOk, ne_nil_of_strip hp]
  have hresponse : propertyOk (str "response") (.str response) = true := by
    simp [propertyOk, ne_nil_of_strip hr]
  rw [schemaOk, getField_behaviorRow_prompt, getField_behaviorRow]
  cases system with
  | none => simp [behaviorRow, hprompt, hresponse]
  | some s =>
      by_cases hs : s = []
      · simp [behaviorRow, hs, hprompt, hresponse]
      · simp [behaviorRow, hs, hprompt, hresponse, hsystem]

/-- A good row has no problem. -/
theorem validateRow_behaviorRow {prompt response : Str} (h : Good c task prompt response)
    (i : Nat) : validateRow c i (.obj (behaviorRow system prompt response)) (some task) = [] := by
  have hprompt : hasText (behaviorRow system prompt response) "prompt" = true := by
    simp [hasText, getField_behaviorRow_prompt, h.hasPrompt]
  have hresponse : hasText (behaviorRow system prompt response) "response" = true := by
    simp [hasText, getField_behaviorRow, h.hasResponse]
  have hfits : task = .extract → responseParses c (behaviorRow system prompt response) = true := by
    intro ht
    rw [responseParses, getField_behaviorRow]
    exact h.parses ht
  have hschema : schemaOk (behaviorRow system prompt response) = true :=
    schemaOk_behaviorRow h.hasPrompt h.hasResponse
  simpa [validateRow, hprompt, hresponse, hschema] using hfits

/-- A scan of good rows has no problem, and counts them. -/
theorem scan_of_good {task : Option EvalTask} {rows : List Fields} {i m : Nat}
    (h : ∀ row ∈ rows, reload c.canon false (.obj row) = .obj row ∧
      ∀ j, validateRow c j (.obj row) task = []) :
    scan c task i (rows.map (rowLine false)) [] m = ([], m + rows.length) := by
  induction rows generalizing i m with
  | nil => rfl
  | cons row rows ih =>
      obtain ⟨hreload, hgood⟩ := h row List.mem_cons_self
      have hload : loads c.canon (strip (rowLine false row)) = some (.obj row) := by
        rw [strip_rowLine, loads_dumps, hreload]
      have hstep : scan c task i ((row :: rows).map (rowLine false)) [] m =
          scan c task (i + 1) (rows.map (rowLine false)) [] (m + 1) := by
        simp [scan, strip_rowLine_ne_nil, hload, hgood i]
      rw [hstep, ih fun row' hrow' ↦ h row' (List.mem_cons_of_mem _ hrow'), List.length_cons]
      congr 1
      omega

theorem loads_rowLine {row : Fields} (h : reload c.canon false (.obj row) = .obj row) :
    loads c.canon (rowLine false row) = some (.obj row) := by
  have hload : loads c.canon (dumps false (.obj row)) = some (.obj row) := by
    rw [loads_dumps, h]
  obtain ⟨toks, hlex, hread⟩ := Option.bind_eq_some_iff.mp hload
  rw [loads, rowLine, lex_append_blank hlex (by decide)]
  exact hread

theorem readEvalRows_writeRows {rows : List Fields}
    (h : ∀ row ∈ rows, reload c.canon false (.obj row) = .obj row) :
    readEvalRows c (writeRows false rows) = some (rows.map .obj) := by
  rw [readEvalRows, rowLines_writeRows]
  induction rows with
  | nil => rfl
  | cons row rows ih =>
      rw [List.map_cons, List.mapM_cons, loads_rowLine (h row List.mem_cons_self),
        ih fun row' hrow' ↦ h row' (List.mem_cons_of_mem _ hrow')]
      rfl

/-! ## Fields of a response -/

theorem mem_extractItems {l : Fields} (hl : l ∈ extractItems c raw) :
    ∃ s data, loads c.canon s = some (.arr data) ∧ .obj l ∈ data := by
  simp only [extractItems] at hl
  split at hl
  · next data hdata =>
      obtain ⟨v, hv, hobj⟩ := List.mem_filterMap.mp hl
      refine ⟨_, data, hdata, ?_⟩
      split at hobj
      · cases hobj
        exact hv
      · cases hobj
  · cases hl

/-- The fields that a generator's item proposes are read back from a response as they are. -/
theorem parseJsonObject_fields (hcanon : ∀ x, c.canon (c.canon x) = c.canon x) {l fields : Fields}
    (hl : l ∈ extractItems c raw) (hfields : getField l (str "fields") = some (.obj fields)) :
    parseJsonObject c (dumps false (.obj fields)) = some fields := by
  obtain ⟨s, data, hload, hmem⟩ := mem_extractItems hl
  have hdata : SettledItems c.canon data := settled_loads hcanon hload
  have hobj : Settled c.canon (.obj l) := settledItems_iff.mp hdata _ hmem
  obtain ⟨x, hx, hvalue⟩ := Option.map_eq_some_iff.mp hfields
  have hsettled := settledFields_iff.mp hobj.2 x (List.mem_of_find?_eq_some hx)
  rw [hvalue] at hsettled
  obtain ⟨body, hbody⟩ := dumps_obj false fields
  have hunfence : unfence (dumps false (.obj fields)) = dumps false (.obj fields) := by
    rw [hbody]
    rfl
  rw [parseJsonObject, strip_dumps_obj, hunfence, loads_dumps_of_settled hsettled]

/-- A row for `extract`. -/
theorem extracts_behaviorRows (hcanon : ∀ x, c.canon (c.canon x) = c.canon x)
    {x : Str × Fields} (hx : x ∈ behaviorRows c raw chunk .extract system) :
    Extracts c (chunk.text.take maxChunkChars) x.2 := by
  obtain ⟨⟨key, prompt, response⟩, hitem, rfl⟩ := List.mem_map.mp hx
  obtain ⟨l, hl, hspec⟩ := List.mem_filterMap.mp hitem
  obtain ⟨fields, hfields, ⟨rest, hprompt, -⟩, hresponse, hquoted⟩ := extractItem_spec hspec
  have hprompt : prompt = chunk.text.take maxChunkChars ++ rest := hprompt
  have hresponse : response = dumps false (.obj fields) := hresponse
  refine ⟨rest, response, fields, ?_, getField_behaviorRow _ _, ?_, hquoted⟩
  · rw [getField_behaviorRow_prompt, hprompt]
  · rw [hresponse]
    exact parseJsonObject_fields hcanon hl hfields

/-! ## The file -/

/-- The rows of the file are some of those that were built, in their order. -/
theorem finalRows_sublist :
    (finalRows c (.behavior task) system outputs).Sublist
      ((allItems c (.behavior task) system outputs).map Prod.snd) := by
  have hkept := (greedy_sublist (r := fun x y : Str × Fields ↦ c.near x.1 y.1) []
    (greedy (fun x y ↦ decide (normWs c x.1 = normWs c y.1)) []
      (allItems c (.behavior task) system outputs))).trans (greedy_sublist [] _)
  rw [finalRows, keptRows_eq]
  exact (List.take_sublist _ _).trans (hkept.map Prod.snd)

theorem mem_outputs_of_finalRows {row : Fields}
    (h : row ∈ finalRows c (.behavior task) system outputs) :
    ∃ x ∈ outputs, ∃ raw key, x.2 = some raw ∧ (key, row) ∈ behaviorRows c raw x.1 task system := by
  obtain ⟨⟨key, row'⟩, hitem, rfl⟩ := List.mem_map.mp (finalRows_sublist.subset h)
  obtain ⟨⟨chunk, out⟩, hx, hrow⟩ := List.mem_flatMap.mp hitem
  cases out with
  | none => cases hrow
  | some raw => exact ⟨_, hx, raw, key, rfl, hrow⟩

/-- A behavior set that is not empty is valid, and is read as it was built. -/
theorem behaviorSet_checks (hmax : 0 < c.evalMaxRows)
    (hcanon : ∀ x, c.canon (c.canon x) = c.canon x)
    (h : synthesizeFromChunks c (.behavior task) system outputs embedded = .ok (text, n)) :
    Checks c task system outputs text n := by
  have hitems := allItems_ne_nil h
  obtain ⟨rfl, rfl⟩ := synthesizeFromChunks_ok h
  have hpos : (finalRows c (.behavior task) system outputs).length ≠ 0 := by
    have hkept := List.length_pos_iff.mpr (keptRows_ne_nil hitems)
    rw [finalRows, List.length_take]
    omega
  have hgood : ∀ row ∈ finalRows c (.behavior task) system outputs,
      reload c.canon false (.obj row) = .obj row ∧
        ∀ j, validateRow c j (.obj row) (some task) = [] := by
    intro row hrow
    obtain ⟨x, -, raw, key, -, hmem⟩ := mem_outputs_of_finalRows hrow
    obtain ⟨prompt, response, rfl, hspec⟩ := good_behaviorRows hmem
    exact ⟨reload_behaviorRow prompt response, validateRow_behaviorRow hspec⟩
  have hscan := scan_of_good hgood (i := 1) (m := 0)
  rw [Nat.zero_add] at hscan
  refine ⟨?_, finalRows c (.behavior task) system outputs,
    readEvalRows_writeRows (fun row hrow ↦ (hgood row hrow).1), rfl, finalRows_sublist, ?_⟩
  · simp [validateDataset, lines_writeRows, hscan, hpos]
  · intro row hrow
    obtain ⟨x, hx, raw, key, hout, hmem⟩ := mem_outputs_of_finalRows hrow
    refine ⟨x, hx, raw, key, hout, hmem, ?_⟩
    rintro rfl
    exact extracts_behaviorRows hcanon hmem

/-! ## A set with one row, and an empty one -/

/-- A chunk of a price list. -/
def deskChunk : Chunk :=
  { id := str "c1"
    text := str "The desk: 120.5 (2023: 110.5, 2022: 100.5). The chair: 45.5 (2023: 40.5, 2022: 35.5)."
    page := none
    filename := str "prices.pdf" }

/-- A generator's output for it, in a fence. -/
def deskOutput : List (Chunk × Option Str) :=
  [(deskChunk, some (str
    "```json\n[\x7b\"instruction\": \"Price?\", \"fields\": \x7b\"desk\": 120.5\x7d\x7d]\n```"))]

/-- The text of the file. -/
def deskFile : Str := writeRows false (finalRows .sample (.behavior .extract) none deskOutput)

/-- `behaviorSet_checks` at one row. -/
theorem behaviorSet_checks_deskFile : Checks .sample .extract none deskOutput deskFile 1 := by
  have hfile : synthesizeFromChunks .sample (.behavior .extract) none deskOutput true =
      .ok (deskFile, 1) := by
    simp only [deskFile, deskOutput, deskChunk]
    repeat rw [str_ofList]
    set_option maxRecDepth 10000 in
    with_unfolding_all decide
  exact behaviorSet_checks (by decide) (fun _ ↦ rfl) hfile

/-- With a limit of zero rows an empty set is written, which is not valid. -/
theorem emptySet_invalid :
    synthesizeFromChunks { Config.sample with evalMaxRows := 0 } (.behavior .extract) none
        deskOutput true = .ok ([], 0) ∧
      validateDataset { Config.sample with evalMaxRows := 0 } [] (some .extract) =
        (false, some "Dataset is empty — must have at least one row", 0) ∧
      ¬Checks { Config.sample with evalMaxRows := 0 } .extract none deskOutput [] 0 := by
  have hempty : synthesizeFromChunks { Config.sample with evalMaxRows := 0 } (.behavior .extract)
      none deskOutput true = .ok ([], 0) := by
    simp only [deskOutput, deskChunk]
    repeat rw [str_ofList]
    with_unfolding_all decide
  refine ⟨hempty, by decide, ?_⟩
  intro hchecks
  have hvalid := hchecks.valid
  revert hvalid
  decide

end Adapta.Datasets
