import Adapta.Lib.EventStream
import Adapta.Lib.Reload
import Adapta.Chat.Cited

/-!
# The answer on the wire

`chat_stream` yields texts: each frame of the answer is one server-sent event, whose data are a
JSON object or, for the last one, `[DONE]`.  A client reads the events and then the JSON.

A token may have any text: line ends, the end mark, a surrogate.  The client gets the frames that
were sent all the same, and of a stream that breaks off the frames that came in whole
(`heard_of_prefix`).  It hears `[DONE]` if and only if the service came to the end of the answer and
the client got all of it, and then it has the text, the counts and the citations of the answer
(`listen_chatStream`).

`json.dumps` writes a surrogate as an escape, and the client reads two escapes that make a pair
as one character: that is all that can happen to a token (`Frame.merged`).

The text of a float and what is read of it are parameters.
-/

namespace Adapta.Chat

open Api Lib Rag
open Keys (EndpointId)

/-! ## Writing -/

/-- A `dict` with keys that the code names. -/
def dict (l : List (String × Json)) : Json := .obj (l.map fun x ↦ (str x.1, x.2))

def optionJson {α : Type} (f : α → Json) : Option α → Json
  | none => .null
  | some x => f x

def FinishReason.value : FinishReason → String
  | .stop => "stop"
  | .length => "length"

def scoreKindValue : ScoreKind → String
  | .reranker => "reranker"
  | .vector => "vector"

section

variable (floatText : Rat → FloatText)

/-- An item of the list `format_citations` returns. -/
def citationJson (c : Citation) : Json :=
  dict [("index", .int c.index), ("source", .str (str c.source)),
    ("score", .float (floatText c.score)), ("score_kind", .str (str (scoreKindValue c.scoreKind))),
    ("text", .str (str c.text)), ("file_id", optionJson (fun f ↦ .str (str f)) c.fileId),
    ("page", optionJson .int c.page), ("ocr", .bool c.ocr),
    ("confidence", optionJson (fun x ↦ .float (floatText x)) c.confidence)]

/-- What all frames of one answer have in common. -/
structure Stamp where
  id : String
  created : Nat
  model : String

def Stamp.fields (st : Stamp) : List (String × Json) :=
  [("id", .str (str st.id)), ("object", .str (str "chat.completion.chunk")),
    ("created", .int st.created), ("model", .str (str st.model))]

def choice (delta finishReason : Json) : Json :=
  .arr [dict [("index", .int 0), ("delta", delta), ("finish_reason", finishReason)]]

def usageJson (promptTokens completionTokens : Nat) : Json :=
  dict [("prompt_tokens", .int promptTokens), ("completion_tokens", .int completionTokens),
    ("total_tokens", .int ((promptTokens + completionTokens : Nat) : Int))]

/-- The object of a frame, but for the end mark. -/
def frameJson (st : Stamp) : Frame → Option Json
  | .delta content => some <| dict <| st.fields ++
      [("choices", choice (dict [("content", .str content)]) .null)]
  | .finish finishReason promptTokens completionTokens citations => some <| dict <| st.fields ++
      [("choices", choice (dict []) (.str (str finishReason.value))),
        ("usage", usageJson promptTokens completionTokens)] ++
      (citations.map fun l ↦ ("citations", Json.arr (l.map (citationJson floatText)))).toList
  | .done => none

/-- The data of a frame's event. -/
def frameData (st : Stamp) (f : Frame) : Str :=
  match frameJson floatText st f with
  | some v => dumps true v
  | none => str "[DONE]"

/-- `f"data: {...}\n\n"`, for each frame in turn. -/
def wire (st : Stamp) (l : List Frame) : Str := eventStream (l.map (frameData floatText st))

end

/-! ## Reading -/

/-- What a client makes of an event. -/
inductive Heard where
  | chunk (v : Json)
  | done

/-- The data of an event, read; `none` if they are not JSON. -/
def hear (canon : FloatText → FloatText) (data : Str) : Option Heard :=
  if data = str "[DONE]" then some .done else (loads canon data).map .chunk

/-- What a client has heard when it has got this text. -/
def listen (canon : FloatText → FloatText) (text : Str) : Option (List Heard) :=
  (readEvents text).mapM (hear canon)

def field? (k : String) : Json → Option Json
  | .obj l => getField l (str k)
  | _ => none

/-- `chunk["choices"][0]["delta"].get("content")`. -/
def content? (v : Json) : Option Str :=
  match field? "choices" v with
  | some (.arr (choice :: _)) =>
      match (field? "delta" choice).bind (field? "content") with
      | some (.str content) => some content
      | _ => none
  | _ => none

def Heard.content? : Heard → Option Str
  | .chunk v => Chat.content? v
  | .done => none

/-- The text of the answer, as far as it has been heard. -/
def heardText (l : List Heard) : Str := (l.filterMap Heard.content?).flatten

/-- The frame as it is read: two escapes that make a pair are one character. -/
def Frame.merged : Frame → Frame
  | .delta content => .delta (mergePairs content)
  | f => f

def Frame.heard (floatText : Rat → FloatText) (st : Stamp) (f : Frame) : Heard :=
  match frameJson floatText st f with
  | some v => .chunk v
  | none => .done

/-! ## One frame -/

section

variable {canon : FloatText → FloatText} {floatText : Rat → FloatText} {st : Stamp} {f : Frame}
  {l : List Frame} {p : Str}

theorem str_injective : Function.Injective str := by
  intro s t h
  have hchar : Function.Injective Code.char := fun _ _ ↦ Code.char.inj
  exact String.toList_injective (hchar.list_map h)

@[simp] theorem field?_dict_cons (k k' : String) (v : Json) (l : List (String × Json)) :
    field? k (dict ((k', v) :: l)) = if k' = k then some v else field? k (dict l) := by
  rw [dict, List.map_cons, field?, getField_cons]
  by_cases h : k' = k
  · rw [if_pos h, if_pos (congrArg str h)]
  · rw [if_neg h, if_neg fun heq ↦ h (str_injective heq)]
    rfl

@[simp] theorem field?_dict_nil (k : String) : field? k (dict []) = none := rfl

theorem unpaired_str (s : String) : Unpaired (str s) := unpaired_of_encodable (encodable_str s)

theorem reload_dict {l : List (String × Json)} (hnodup : (l.map fun x ↦ str x.1).Nodup)
    (ascii : Bool) :
    reload canon ascii (dict l) = dict (l.map fun x ↦ (x.1, reload canon ascii x.2)) := by
  rw [dict, reload_obj, dict, List.map_map, List.map_map]
  · rfl
  · rw [List.map_map]
    exact hnodup
  · intro x hx
    obtain ⟨y, -, rfl⟩ := List.mem_map.mp hx
    exact unpaired_str y.1

theorem stable_dict {l : List (String × Json)} (hnodup : (l.map fun x ↦ str x.1).Nodup)
    (hl : ∀ x ∈ l, Stable canon x.2) : Stable canon (dict l) := by
  intro ascii
  have hmap : (l.map fun x ↦ (x.1, reload canon ascii x.2)) = l.map id := by
    apply List.map_congr_left
    intro x hx
    rw [hl x hx]
    rfl
  rw [reload_dict hnodup, hmap, List.map_id]

theorem stable_string (s : String) : Stable canon (.str (str s)) := stable_str (unpaired_str s)

theorem stable_int (n : Int) : Stable canon (.int n) := fun _ ↦ rfl

theorem stable_optionJson {α : Type} {f : α → Json} (hf : ∀ x, Stable canon (f x)) (o : Option α) :
    Stable canon (optionJson f o) := by
  cases o with
  | none => exact fun _ ↦ rfl
  | some x => exact hf x

theorem stable_citationJson (hfloat : ∀ x, canon (floatText x) = floatText x) (c : Citation) :
    Stable canon (citationJson floatText c) := by
  have hscore : ∀ x, Stable canon (.float (floatText x)) := fun x _ ↦ congrArg Json.float (hfloat x)
  have hkeys : ([str "index", str "source", str "score", str "score_kind", str "text",
      str "file_id", str "page", str "ocr", str "confidence"] : List Str).Nodup := by decide
  apply stable_dict
  · exact hkeys
  · simp only [List.forall_mem_cons]
    exact ⟨stable_int _, stable_string _, hscore _, stable_string _, stable_string _,
      stable_optionJson (fun f ↦ stable_string f) _, stable_optionJson stable_int _, fun _ ↦ rfl,
      stable_optionJson hscore _, by simp⟩

theorem stable_usageJson (pt ct : Nat) : Stable canon (usageJson pt ct) := by
  have hkeys : ([str "prompt_tokens", str "completion_tokens",
      str "total_tokens"] : List Str).Nodup := by decide
  apply stable_dict
  · exact hkeys
  · simp only [List.forall_mem_cons]
    exact ⟨stable_int _, stable_int _, stable_int _, by simp⟩

theorem reload_choice (delta finishReason : Json) (ascii : Bool) :
    reload canon ascii (choice delta finishReason) =
      choice (reload canon ascii delta) (reload canon ascii finishReason) := by
  have hkeys : ([str "index", str "delta", str "finish_reason"] : List Str).Nodup := by decide
  rw [choice, reload, reloadItems, reloadItems, reload_dict]
  · rfl
  · exact hkeys

theorem stable_stampFields (st : Stamp) : ∀ x ∈ st.fields, Stable canon x.2 := by
  simp only [Stamp.fields, List.forall_mem_cons]
  exact ⟨stable_string _, stable_string _, stable_int _, stable_string _, by simp⟩

theorem stable_finish (hfloat : ∀ x, canon (floatText x) = floatText x) (st : Stamp)
    (r : FinishReason) (pt ct : Nat) (citations : Option (List Citation)) :
    Stable canon (dict (st.fields ++ [("choices", choice (dict []) (.str (str r.value))),
      ("usage", usageJson pt ct)] ++
      (citations.map fun l ↦ ("citations", Json.arr (l.map (citationJson floatText)))).toList)) := by
  have hkeys : ([str "id", str "object", str "created", str "model", str "choices",
      str "usage"] : List Str).Nodup := by decide
  have hall : ([str "id", str "object", str "created", str "model", str "choices",
      str "usage", str "citations"] : List Str).Nodup := by decide
  have hchoice : Stable canon (choice (dict []) (.str (str r.value))) := by
    intro ascii
    rw [reload_choice, stable_string r.value]
    rfl
  have hcitations : ∀ l : List Citation,
      Stable canon (.arr (l.map (citationJson floatText))) := by
    intro l
    apply stable_arr
    intro v hv
    obtain ⟨c, -, rfl⟩ := List.mem_map.mp hv
    exact stable_citationJson hfloat c
  apply stable_dict
  · cases citations with
    | none => exact hkeys
    | some l => exact hall
  · simp only [List.forall_mem_append, List.forall_mem_cons]
    refine ⟨⟨stable_stampFields st, hchoice, stable_usageJson pt ct, by simp⟩, ?_⟩
    intro x hx
    obtain ⟨l, -, rfl⟩ := Option.map_eq_some_iff.mp (Option.mem_toList.mp hx)
    exact hcitations l

/-- The object of a frame is read with the pairs merged. -/
theorem reload_frameJson (hfloat : ∀ x, canon (floatText x) = floatText x) (st : Stamp)
    (f : Frame) :
    (frameJson floatText st f).map (reload canon true) = frameJson floatText st f.merged := by
  cases f with
  | delta content =>
      have hcontent : ([str "content"] : List Str).Nodup := by decide
      have hkeys : ([str "id", str "object", str "created", str "model",
          str "choices"] : List Str).Nodup := by decide
      have hdelta : reload canon true (dict [("content", .str content)]) =
          dict [("content", .str (mergePairs content))] := by
        rw [reload_dict, ← reloadStr_true]
        · rfl
        · exact hcontent
      have hfields : (st.fields.map fun x ↦ (x.1, reload canon true x.2)) = st.fields.map id := by
        apply List.map_congr_left
        intro x hx
        rw [stable_stampFields st x hx]
        rfl
      simp only [frameJson, Frame.merged, Option.map_some]
      rw [reload_dict, List.map_append, hfields, List.map_id, List.map_singleton, reload_choice,
        hdelta]
      · rfl
      · exact hkeys
  | finish finishReason pt ct citations =>
      simp only [frameJson, Frame.merged, Option.map_some]
      rw [stable_finish hfloat]
  | done => rfl

theorem inline_frameData (st : Stamp) (f : Frame) : Inline (frameData floatText st f) := by
  rw [frameData]
  split
  · exact inline_dumps _
  · show ∀ c ∈ str "[DONE]", c ≠ .char '\n' ∧ c ≠ .char '\r'
    decide

/-- The data of an event are read as the frame, with the pairs merged. -/
theorem hear_frameData (hfloat : ∀ x, canon (floatText x) = floatText x) (st : Stamp)
    (f : Frame) : hear canon (frameData floatText st f) = some (f.merged.heard floatText st) := by
  have hreload := reload_frameJson hfloat st f
  rw [Frame.heard, ← hreload, frameData]
  cases hjson : frameJson floatText st f with
  | none => exact if_pos rfl
  | some v =>
      -- an object begins with a brace, so it is not the end mark
      obtain ⟨fields, rfl⟩ : ∃ fields, v = .obj fields := by
        cases f <;> cases hjson <;> exact ⟨_, rfl⟩
      obtain ⟨body, hbody⟩ := dumps_obj true fields
      have hne : dumps true (.obj fields) ≠ str "[DONE]" := by
        rw [hbody]
        intro heq
        cases (List.cons.inj heq).1
      simp only [hear, if_neg hne, loads_dumps, Option.map_some]

/-! ## The stream -/

theorem mapM_hear (hfloat : ∀ x, canon (floatText x) = floatText x) (st : Stamp)
    (l : List Frame) :
    (l.map (frameData floatText st)).mapM (hear canon) =
      some (l.map fun f ↦ f.merged.heard floatText st) := by
  induction l with
  | nil => rfl
  | cons f l ih => simp [hear_frameData hfloat, ih]

/-- A client that has got a part of the text has heard the frames that came in whole. -/
theorem heard_of_prefix (hfloat : ∀ x, canon (floatText x) = floatText x) (st : Stamp)
    (l : List Frame) (hp : p <+: wire floatText st l) :
    ∃ n ≤ l.length,
      listen canon p = some ((l.take n).map fun f ↦ f.merged.heard floatText st) ∧
      wire floatText st (l.take n) <+: p ∧
      (n < l.length → p.length < (wire floatText st (l.take (n + 1))).length) := by
  have hl : ∀ d ∈ l.map (frameData floatText st), Inline d := by
    intro d hd
    obtain ⟨f, -, rfl⟩ := List.mem_map.mp hd
    exact inline_frameData st f
  obtain ⟨n, hn, hread, hpre, hlt⟩ := readEvents_of_prefix hl hp
  rw [List.length_map] at hn hlt
  refine ⟨n, hn, ?_, ?_, ?_⟩
  · rw [listen, hread, ← List.map_take, mapM_hear hfloat]
  · rw [wire, List.map_take]
    exact hpre
  · rw [wire, List.map_take]
    exact hlt

theorem content?_heard (f : Frame) : (f.heard floatText st).content? = f.content? := by
  cases f with
  | delta content =>
      simp [Frame.heard, frameJson, Heard.content?, Frame.content?, content?, Stamp.fields, choice]
  | finish finishReason pt ct citations =>
      simp [Frame.heard, frameJson, Heard.content?, Frame.content?, content?, Stamp.fields, choice]
  | done => rfl

end

/-! ## The answer of the service -/

/-- The frames a stream yields. -/
def framesOf (g : Frames) : List Frame := g.events.filterMap Emit.yield?

/-- The text of the answer as it is read. -/
def mergedText (l : List Frame) : Str := (l.filterMap Frame.content?).flatMap mergePairs

/-- A stream that raises has tokens only; one that ends has one frame with the counts and the end
mark after them. -/
inductive Ended : Option DomainError → List Frame → Prop where
  | raised (e : DomainError) (tokens : List Str) : Ended (some e) (tokens.map .delta)
  | finished (tokens : List Str) (r : FinishReason) (pt ct : Nat)
      (citations : Option (List Citation)) :
      Ended none (tokens.map .delta ++ [.finish r pt ct citations, .done])

section

variable {E : Env} {a : ServiceArgs} {e : Option EndpointId} {g : Frames}
  {sent : List InferenceRequest}

theorem framesOf_tokens (l : List Str) (e : Option DomainError) :
    framesOf ⟨l.map fun t ↦ .yield (.delta t), e⟩ = l.map .delta := by
  rw [framesOf, List.filterMap_map, ← List.filterMap_eq_map]
  rfl

theorem ended_chatStream (h : (chatStream E a e).outcome = (.ok g, sent)) :
    Ended g.raised (framesOf g) := by
  cases himg : hasImageParts a.messages with
  | true =>
      rw [chatStream, himg] at h
      cases h
  | false =>
      rw [outcome_of_fitted (chatStream_eq himg e)] at h
      rcases hf : (fitted E a).outcome with ⟨_ | v, sent₀⟩
      · rw [hf] at h
        cases h
      · rw [hf] at h
        cases v with
        | abstains q =>
            cases h
            have hframes := frames_ended [str abstentionAnswer] .stop q.promptTokens
              q.completionTokens (some []) e q.promptTokens q.completionTokens
            exact Eq.subst (motive := Ended none) hframes.symm (.finished _ _ _ _ _)
        | ready q handle system kept maxTokens =>
            simp only [streamed, Serve.run_hand_bind] at h
            split at h
            · cases h
              rw [framesOf_tokens]
              exact Ended.raised _ _
            · cases h
              rw [framesOf, frames_ended]
              exact Ended.finished _ _ _ _ _

/-- An item that is only at the end of a list is in the whole list alone. -/
theorem mem_take_concat_iff {α : Type} {l : List α} {x : α} {n : Nat} (hx : x ∉ l)
    (hn : n ≤ (l ++ [x]).length) : x ∈ (l ++ [x]).take n ↔ n = (l ++ [x]).length := by
  constructor
  · intro hmem
    by_contra hne
    have hshort : n ≤ l.length := by
      rw [List.length_append, List.length_singleton] at hn hne
      omega
    rw [List.take_append_of_le_length hshort] at hmem
    exact hx (List.mem_of_mem_take hmem)
  · rintro rfl
    rw [List.take_length]
    exact List.mem_concat_self

/-- The end mark has come in if and only if the answer was ended and all of it has come in. -/
theorem done_mem_take_iff {o : Option DomainError} {l : List Frame} (h : Ended o l) {n : Nat}
    (hn : n ≤ l.length) : .done ∈ l.take n ↔ o = none ∧ n = l.length := by
  cases h with
  | raised e tokens =>
      simp only [reduceCtorEq, false_and, iff_false]
      intro hmem
      obtain ⟨t, -, hdelta⟩ := List.mem_map.mp (List.mem_of_mem_take hmem)
      cases hdelta
  | finished tokens r pt ct citations =>
      have hlast : tokens.map Frame.delta ++ [Frame.finish r pt ct citations, Frame.done] =
          (tokens.map Frame.delta ++ [Frame.finish r pt ct citations]) ++ [Frame.done] := by simp
      have hfront : Frame.done ∉ tokens.map Frame.delta ++ [Frame.finish r pt ct citations] := by
        simp
      rw [hlast] at hn ⊢
      rw [mem_take_concat_iff hfront hn]
      simp

end

/-! ## What the client knows -/

section

variable {canon : FloatText → FloatText} {floatText : Rat → FloatText} {st : Stamp}
  {l : List Frame} {p : Str}

theorem heard_eq_done_iff {f : Frame} : f.merged.heard floatText st = .done ↔ f = .done := by
  cases f <;> simp [Frame.merged, Frame.heard, frameJson]

/-- The text that has been heard. -/
theorem heardText_map (l : List Frame) :
    heardText (l.map fun f ↦ f.merged.heard floatText st) = mergedText l := by
  have hcontent : ∀ f : Frame, (f.merged.heard floatText st).content? =
      f.content?.map mergePairs := by
    intro f
    rw [content?_heard]
    cases f <;> rfl
  rw [heardText, mergedText, List.filterMap_map, List.flatMap, List.map_filterMap]
  congr 2
  funext f
  exact hcontent f

/-- All has come in if the whole text has. -/
theorem eq_length_iff {n : Nat} (hn : n ≤ l.length) (hp : p <+: wire floatText st l)
    (hpre : wire floatText st (l.take n) <+: p)
    (hlt : n < l.length → p.length < (wire floatText st (l.take (n + 1))).length) :
    n = l.length ↔ p = wire floatText st l := by
  constructor
  · rintro rfl
    rw [List.take_length] at hpre
    exact hp.eq_of_length (Nat.le_antisymm hp.length_le hpre.length_le)
  · rintro rfl
    by_contra hne
    have hshort := hlt (Nat.lt_of_le_of_ne hn hne)
    have hwire : wire floatText st (l.take (n + 1)) <+: wire floatText st l := by
      rw [wire, wire, eventStream, eventStream]
      exact ((List.take_prefix _ _).map _).flatMap _
    exact Nat.not_lt.mpr hwire.length_le hshort

/-- Every token can be sent, whatever it is. -/
theorem encodable_wire (st : Stamp) (l : List Frame) :
    encodable (wire floatText st l) = true := by
  have hdata : ∀ f, encodable (eventText (frameData floatText st f)) = true := by
    intro f
    rw [eventText, frameData]
    cases frameJson floatText st f with
    | none => simp
    | some v => simp [encodable_dumps]
  induction l with
  | nil => rfl
  | cons f l ih =>
      rw [wire, List.map_cons, eventStream_cons, encodable_append, hdata f, Bool.true_and]
      exact ih

/-- What has been heard of a part is a part of what is heard of the whole. -/
theorem heardText_take (l : List Frame) (n : Nat) :
    heardText ((l.take n).map fun f ↦ f.merged.heard floatText st) <+: mergedText l := by
  rw [heardText_map, mergedText, mergedText]
  exact ((List.take_prefix n l).filterMap _).flatMap _

/-- The frames as a client hears them. -/
def heardFrames (floatText : Rat → FloatText) (st : Stamp) (l : List Frame) : List Heard :=
  l.map fun f ↦ f.merged.heard floatText st

theorem done_mem_heardFrames : .done ∈ heardFrames floatText st l ↔ .done ∈ l := by
  constructor
  · intro hmem
    obtain ⟨f, hf, hheard⟩ := List.mem_map.mp hmem
    exact heard_eq_done_iff.mp hheard ▸ hf
  · exact fun hmem ↦ List.mem_map.mpr ⟨.done, hmem, rfl⟩

/-- What a client has heard of an answer, of which `p` has come in. -/
structure Follows (canon : FloatText → FloatText) (floatText : Rat → FloatText) (st : Stamp)
    (g : Frames) (p : Str) (heard : List Heard) : Prop where
  listened : listen canon p = some heard
  frames : heard <+: heardFrames floatText st (framesOf g)
  text : heardText heard <+: mergedText (framesOf g)
  /-- The end mark says that the service has not raised, and that nothing is missing. -/
  done : .done ∈ heard ↔ g.raised = none ∧ p = wire floatText st (framesOf g)
  whole : .done ∈ heard → heard = heardFrames floatText st (framesOf g) ∧
    heardText heard = mergedText (framesOf g)

/-- **A client knows what it has of an answer.**  Whatever the tokens are, the answer can be sent;
of any part of it the client reads the frames that came in whole, and it hears the end mark if and
only if the service came to the end and all of the answer came in. -/
theorem listen_chatStream {E : Env} {a : ServiceArgs} {e : Option EndpointId} {g : Frames}
    {sent : List InferenceRequest} (hfloat : ∀ x, canon (floatText x) = floatText x)
    (h : (chatStream E a e).outcome = (.ok g, sent)) (st : Stamp) :
    encodable (wire floatText st (framesOf g)) = true ∧
      ∀ p, p <+: wire floatText st (framesOf g) →
        ∃ heard, Follows canon floatText st g p heard := by
  refine ⟨encodable_wire st _, fun p hp ↦ ?_⟩
  obtain ⟨n, hn, hlisten, hpre, hlt⟩ := heard_of_prefix hfloat st (framesOf g) hp
  have hend := done_mem_take_iff (ended_chatStream h) hn
  refine ⟨_, hlisten, (List.take_prefix n _).map _, heardText_take _ n, ?_, fun hmem ↦ ?_⟩
  · rw [← eq_length_iff hn hp hpre hlt, ← hend]
    exact done_mem_heardFrames
  · obtain ⟨-, hlength⟩ := hend.mp (done_mem_heardFrames.mp hmem)
    rw [hlength, List.take_length]
    exact ⟨rfl, heardText_map _⟩

/-! ## An answer that looks like a stream -/

/-- The model says what the end of a stream looks like. -/
def mimicEnv : Env :=
  { deskEnv with
    reply := fun _ ↦
      ⟨[str "Nine.\n\n", str "data: [DONE]\n\n"], .stop, 12, none, none, false, none⟩ }

/-- `repr` of the score of the run. -/
def scoreText (_ : Rat) : FloatText := ⟨"0.75".toList, by decide⟩

/-- The client gets that text, and the end mark after it. -/
theorem listen_mimic : ∃ g sent heard,
    (chatStream mimicEnv (citedArgs (.text (str "When do you open?"))) none).outcome =
      (.ok g, sent) ∧
    Follows id scoreText ⟨"chatcmpl-0", 0, "qwen2.5-3b-instruct"⟩ g
      (wire scoreText ⟨"chatcmpl-0", 0, "qwen2.5-3b-instruct"⟩ (framesOf g)) heard ∧
    .done ∈ heard ∧ heardText heard = str "Nine.\n\ndata: [DONE]\n\n" := by
  have hrun : (chatStream mimicEnv (citedArgs (.text (str "When do you open?")))
      none).outcome.1.toOption.map (fun g ↦ (g.raised, mergedText (framesOf g))) =
        some (none, str "Nine.\n\ndata: [DONE]\n\n") := by decide +kernel
  rcases hout : (chatStream mimicEnv (citedArgs (.text (str "When do you open?")))
    none).outcome with ⟨_ | g, sent⟩
  · rw [hout] at hrun
    cases hrun
  · have hfloat : ∀ x, id (scoreText x) = scoreText x := fun _ ↦ rfl
    obtain ⟨heard, hheard⟩ := (listen_chatStream hfloat hout
      ⟨"chatcmpl-0", 0, "qwen2.5-3b-instruct"⟩).2 _ List.prefix_rfl
    rw [hout] at hrun
    simp only [Except.toOption, Option.map_some, Option.some.injEq, Prod.mk.injEq] at hrun
    have hdone := hheard.done.mpr ⟨hrun.1, rfl⟩
    exact ⟨g, sent, heard, rfl, hheard, hdone, (hheard.whole hdone).2.trans hrun.2⟩

end

end Adapta.Chat
