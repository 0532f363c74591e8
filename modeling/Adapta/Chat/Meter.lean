import Adapta.Chat.Agree

/-!
# Metering of streams

`record_usage` of `adapta/services/usage.py` adds a request to the row of its endpoint and day.
`chat_stream` calls it after its last frame, with the counts the engine reported on the handle
or, if there are none, with its own: the prompt as the handle counts it, and one token for each
piece of text it was given.

So nothing is metered for a client that stops early or a stream that raises, tokens without text
are not counted, and after an Ollama stream without a `done` frame the counts on the handle are
those of the condensation call, which is then metered twice.  The metering is exact in all other
cases (`metered_iff`).
-/

namespace Adapta.Chat

open Api Lib Rag
open Keys (EndpointId)

/-! ## The rollup -/

structure UsageRow where
  promptTokens : Nat
  completionTokens : Nat
  requestCount : Nat
deriving DecidableEq, Repr

/-- A day of the calendar. -/
abbrev Day := Nat

/-- `usage_events`, by its unique key. -/
abbrev UsageTable := EndpointId → Day → Option UsageRow

/-- `record_usage`: an upsert that adds to the counters. -/
def recordUsage (today : Day) (t : UsageTable) (m : Metered) : UsageTable :=
  fun e d ↦
    if e = m.endpoint ∧ d = today then
      some (match t e d with
        | none => ⟨m.promptTokens, m.completionTokens, 1⟩
        | some row => ⟨row.promptTokens + m.promptTokens,
            row.completionTokens + m.completionTokens, row.requestCount + 1⟩)
    else t e d

/-- The tokens of a row, and its requests. -/
def totals (row : Option UsageRow) : Nat × Nat :=
  match row with
  | none => (0, 0)
  | some row => (row.promptTokens + row.completionTokens, row.requestCount)

theorem totals_recordUsage (today : Day) (t : UsageTable) (m : Metered) :
    totals (recordUsage today t m m.endpoint today) =
      ((totals (t m.endpoint today)).1 + (m.promptTokens + m.completionTokens),
        (totals (t m.endpoint today)).2 + 1) := by
  rw [recordUsage, if_pos ⟨rfl, rfl⟩]
  cases t m.endpoint today with
  | none => simp [totals]
  | some row =>
      simp only [totals, Prod.mk.injEq, and_true]
      omega

/-! ## Runs -/

variable {E : Env} {a : ServiceArgs}

/-- The calls of `record_usage` in a run whose client asks for `n` frames. -/
def meteredBy (E : Env) (a : ServiceArgs) (e : EndpointId) (n : Nat) : List Metered :=
  match (chatStream E a (some e)).outcome.1 with
  | .error _ => []
  | .ok g => actions n g.events

/-- The condensation call and its tokens, if the request has a project. -/
def condensed (E : Env) (a : ServiceArgs) : Queries :=
  match a.projectId.filter (· ≠ "") with
  | none => ⟨[], 0, 0, none⟩
  | some _ =>
      match (retrievalQueries E a.modelName a.adapterPath (splitClientSystem a.messages).1
        a.condense).outcome.1 with
      | .ok q => q
      | .error _ => ⟨[], 0, 0, none⟩

/-- The reply to the streamed request. -/
def streamReply (E : Env) (a : ServiceArgs) (system : Option Str) (maxTokens : Int) : Reply :=
  replyTo E (answerRequest E a system maxTokens E.settings.topP true)

/-- The number of tokens of the final prompt.  llama.cpp is given the rendered text; Ollama
renders it itself. -/
def promptSize (E : Env) (a : ServiceArgs) (h : Handle) (system : Option Str) (r : Reply) : Nat :=
  match h.backend with
  | .llamaCpp => E.tokenize (renderChatml system ((splitClientSystem a.messages).1.map flatMessage))
  | .ollama => r.promptTokens

/-- The number of tokens the engine has generated when it was asked for `n` pieces of text. -/
def generatedBy : Nat → List Str → Nat
  | 0, _ => 0
  | _ + 1, [] => 0
  | n + 1, t :: l => generatedBy (if t = [] then n + 1 else n) l + 1

/-- The tokens a run uses: those of the condensation call, of the final prompt, and those
generated. -/
def tokensUsed (E : Env) (a : ServiceArgs) (n : Nat) : Nat :=
  (condensed E a).promptTokens + (condensed E a).completionTokens +
    match (fitted E a).outcome.1 with
    | .ok (.ready _ h system _ maxTokens) =>
        let r := streamReply E a system maxTokens
        promptSize E a h system r + generatedBy n r.tokens
    | .ok (.abstains _) | .error _ => 0

/-- The run adds one request to its endpoint's row, and the tokens it used. -/
def MeteredExactly (E : Env) (a : ServiceArgs) (e : EndpointId) (n : Nat) : Prop :=
  ∀ (today : Day) (t : UsageTable),
    totals ((meteredBy E a e n).foldl (recordUsage today) t e today) =
      ((totals (t e today)).1 + tokensUsed E a n, (totals (t e today)).2 + 1)

/-! ## The handle and the condensation call -/

/-- The condensation call a prompt was made with. -/
def Fitted.queries : Fitted → Queries
  | .abstains q => q
  | .ready q _ _ _ _ => q

/-- The counts on a handle of llama.cpp are never set. -/
def Handle.Silent (h : Handle) : Prop := h.backend = .llamaCpp → h.usage = none

theorem silent_prepare {modelName : String} {adapterPath : Option String} {h : Handle}
    (hp : prepare E modelName adapterPath = .ok h) : h.Silent := by
  simp only [prepare] at hp
  split at hp
  · cases hp
  · cases hp
    exact fun _ ↦ rfl

theorem silent_generate {h h' : Handle} {req : InferenceRequest} {response : InferenceResponse}
    (hs : h.Silent) (hg : generate E h req = .ok (response, h')) : h'.Silent := by
  simp only [generate] at hg
  split at hg
  · cases hg
  · split at hg
    · cases hg
      exact hs
    · next hb =>
      cases hg
      intro hb'
      cases hb.symm.trans hb'

theorem silent_retrievalQueries {modelName : String} {adapterPath : Option String}
    {messages : List Turn} {condense : Bool} {s s' : List InferenceRequest} {q : Queries}
    (hr : (retrievalQueries E modelName adapterPath messages condense).run.run s = (.ok q, s')) :
    ∀ h, q.handle = some h → h.Silent := by
  simp only [retrievalQueries] at hr
  split at hr
  · cases hr
    exact nofun
  · obtain ⟨h, t, hprep, hr⟩ := Serve.run_bind_ok hr
    have hs := silent_prepare (Serve.run_lift_ok hprep)
    obtain ⟨⟨question, pt, ct, h'⟩, t', hcond, hr⟩ := Serve.run_bind_ok hr
    have hs' : h'.Silent := by
      simp only [condenseQuery, Serve.run_hand_bind] at hcond
      split at hcond
      · cases hcond
        exact hs
      · next hg =>
        cases hcond
        exact silent_generate hs hg
    have hq : q.handle = some h' := by
      simp only at hr
      split at hr
      · cases hr
        rfl
      · split at hr <;> cases hr <;> rfl
    intro h'' hh
    cases hq.symm.trans hh
    exact hs'

/-- What is known of a prompt: its condensation call, and that llama.cpp set no counts. -/
theorem fitted_spec {v : Fitted} {sent : List InferenceRequest}
    (hf : (fitted E a).outcome = (.ok v, sent)) :
    v.queries = condensed E a ∧
      ∀ q h system kept maxTokens, v = .ready q h system kept maxTokens → h.Silent := by
  obtain ⟨⟨q, chunks⟩, t, hg, hrest⟩ := Serve.run_bind_ok hf
  have hq : q = condensed E a ∧ ∀ h, q.handle = some h → h.Silent := by
    rw [condensed]
    cases hp : a.projectId.filter (· ≠ "") with
    | none =>
        rw [hp] at hg
        cases hg
        exact ⟨rfl, nofun⟩
    | some p =>
        rw [hp] at hg
        obtain ⟨q', t₁, hq', hg⟩ := Serve.run_bind_ok hg
        obtain ⟨topK, t₂, -, hg⟩ := Serve.run_bind_ok hg
        obtain ⟨chunks', t₃, -, hg⟩ := Serve.run_bind_ok hg
        cases hg
        have hout : (retrievalQueries E a.modelName a.adapterPath (splitClientSystem a.messages).1
            a.condense).outcome = (.ok q, t₁) := hq'
        refine ⟨?_, silent_retrievalQueries hq'⟩
        simp only [hout]
  obtain ⟨rfl, hsilent⟩ := hq
  simp only at hrest
  split at hrest
  · cases hrest
    exact ⟨rfl, nofun⟩
  · obtain ⟨h, t₁, hh, hrest⟩ := Serve.run_bind_ok hrest
    obtain ⟨x, t₂, -, hrest⟩ := Serve.run_bind_ok hrest
    cases hrest
    refine ⟨rfl, ?_⟩
    rintro q h' system kept maxTokens ⟨⟩
    split at hh
    · next hsome =>
      cases hh
      exact hsilent _ hsome
    · exact silent_prepare (Serve.run_lift_ok hh)

/-! ## When the metering is exact -/

/-- Nothing raises, and the client reads the stream to its end. -/
def ReadToEnd (E : Env) (a : ServiceArgs) (n : Nat) : Prop :=
  hasImageParts a.messages = false ∧
    match (fitted E a).outcome.1 with
    | .error _ => False
    | .ok (.abstains _) => 3 < n
    | .ok (.ready _ _ system _ maxTokens) =>
        (streamReply E a system maxTokens).raised = none ∧
          (deltas (streamReply E a system maxTokens)).length + 2 < n

/-- What is counted is what the engine did with the final request.  llama.cpp: every token has
text.  Ollama: the counts of the `done` frame are right; without one, the counts that the
condensation call left on the handle are, by accident; without these, the estimate of the prompt
with the number of pieces of text. -/
def CountedRight (a : ServiceArgs) (h : Handle) (system : Option Str) (r : Reply) : Prop :=
  match h.backend with
  | .llamaCpp => ∀ t ∈ r.tokens, t ≠ []
  | .ollama =>
      if r.done then
        r.promptEvalCount.getD 0 + r.evalCount.getD 0 = r.promptTokens + r.tokens.length
      else
        match h.usage with
        | some counts => counts.1 + counts.2 = r.promptTokens + r.tokens.length
        | none =>
            estimateTokens ((splitClientSystem a.messages).1.map flatMessage) system +
              (deltas r).length = r.promptTokens + r.tokens.length

/-- The final request, if there is one, is counted right. -/
def CountsRight (E : Env) (a : ServiceArgs) : Prop :=
  match (fitted E a).outcome.1 with
  | .ok (.ready _ h system _ maxTokens) => CountedRight a h system (streamReply E a system maxTokens)
  | .ok (.abstains _) | .error _ => True

theorem generatedBy_eq_length {n : Nat} {l : List Str} (h : (l.filter (· ≠ [])).length < n) :
    generatedBy n l = l.length := by
  induction l generalizing n with
  | nil =>
      cases n with
      | zero => rfl
      | succ n => rfl
  | cons t l ih =>
      cases n with
      | zero => cases h
      | succ n =>
          rw [generatedBy, List.length_cons]
          congr 1
          by_cases ht : t = []
          · rw [if_pos ht]
            exact ih (by simpa [ht] using h)
          · rw [if_neg ht]
            exact ih (by simpa [ht] using h)

/-- The counts that are metered, less those of the condensation call, are right exactly if
`CountedRight`. -/
theorem countedRight_iff {q : Queries} {h : Handle} (hs : h.Silent) {system : Option Str}
    {r : Reply} :
    (streamedCounts E a q h system r).1 + (streamedCounts E a q h system r).2 =
        q.promptTokens + q.completionTokens + (promptSize E a h system r + r.tokens.length) ↔
      CountedRight a h system r := by
  cases hb : h.backend with
  | llamaCpp =>
      have hlen : (deltas r).length = r.tokens.length ↔ ∀ t ∈ r.tokens, t ≠ [] := by
        simp [deltas, List.length_filter_eq_length_iff]
      simp only [streamedCounts, streamedHandle, hb, hs hb, Option.getD_none, promptSize,
        countPromptTokens, CountedRight, ← hlen]
      omega
  | ollama =>
      by_cases hd : r.done = true
      · simp only [streamedCounts, streamedHandle, hb, hd, if_true, Option.getD_some, promptSize,
          CountedRight]
        omega
      · cases hu : h.usage with
        | none =>
            simp only [streamedCounts, streamedHandle, hb, hd, if_false, hu, Option.getD_none,
              promptSize, countPromptTokens, CountedRight, Bool.false_eq_true]
            omega
        | some counts =>
            simp only [streamedCounts, streamedHandle, hb, hd, if_false, hu, Option.getD_some,
              promptSize, CountedRight, Bool.false_eq_true]
            omega

/-! ## What is metered -/

section

variable {e : EndpointId} {n : Nat}

/-- A run that meters nothing does not count its request. -/
theorem not_exactly_of_nil (h : meteredBy E a e n = []) : ¬MeteredExactly E a e n := by
  intro hm
  have := hm 0 fun _ _ ↦ none
  rw [h] at this
  simp [totals] at this

theorem exactly_iff_of_singleton {pt ct : Nat} (h : meteredBy E a e n = [⟨e, pt, ct⟩]) :
    MeteredExactly E a e n ↔ pt + ct = tokensUsed E a n := by
  constructor
  · intro hm
    have hrow := hm 0 fun _ _ ↦ none
    rw [h, List.foldl_cons, List.foldl_nil] at hrow
    have htot := totals_recordUsage 0 (fun _ _ ↦ none) ⟨e, pt, ct⟩
    have := congrArg Prod.fst (htot.symm.trans hrow)
    simpa [totals] using this
  · intro hsum today t
    rw [h, List.foldl_cons, List.foldl_nil, ← hsum]
    exact totals_recordUsage today t ⟨e, pt, ct⟩

theorem meter_some (he : e ≠ "") (pt ct : Nat) : meter (some e) pt ct = [.act ⟨e, pt, ct⟩] := by
  simp [meter, Option.filter, he]

/-- The outcome of `chat_stream`, when a prompt or an abstention is reached. -/
theorem meteredBy_of_fitted (himg : hasImageParts a.messages = false) :
    meteredBy E a e n =
      match (fitted E a).outcome with
      | (.ok v, sent) =>
          match ((streamed E a (some e) v).run.run sent).1 with
          | .error _ => []
          | .ok g => actions n g.events
      | (.error _, _) => [] := by
  have hstream : (chatStream E a (some e)).outcome = _ :=
    outcome_of_fitted (chatStream_eq himg (some e))
  rw [meteredBy, hstream]
  rcases (fitted E a).outcome with ⟨_ | v, sent⟩ <;> rfl

theorem meteredBy_abstains (he : e ≠ "") (himg : hasImageParts a.messages = false) {q : Queries}
    {sent : List InferenceRequest} (hf : (fitted E a).outcome = (.ok (.abstains q), sent)) :
    meteredBy E a e n = if 3 < n then [⟨e, q.promptTokens, q.completionTokens⟩] else [] := by
  rw [meteredBy_of_fitted himg, hf]
  show actions n (_ ++ meter (some e) _ _) = _
  rw [meter_some he]
  exact actions_yields_act _ _ n

theorem meteredBy_ready (he : e ≠ "") (himg : hasImageParts a.messages = false) {q : Queries}
    {h : Handle} {system : Option Str} {kept : List RetrievedChunk} {maxTokens : Int}
    {sent : List InferenceRequest}
    (hf : (fitted E a).outcome = (.ok (.ready q h system kept maxTokens), sent)) :
    meteredBy E a e n =
      if (streamReply E a system maxTokens).raised = none ∧
          (deltas (streamReply E a system maxTokens)).length + 2 < n then
        [⟨e, (streamedCounts E a q h system (streamReply E a system maxTokens)).1,
          (streamedCounts E a q h system (streamReply E a system maxTokens)).2⟩]
      else [] := by
  rw [meteredBy_of_fitted himg, hf]
  simp only [streamed, Serve.run_hand_bind]
  split
  · next hrun =>
    split at hrun <;> cases hrun
  · next g hrun =>
    split at hrun
    · next e' hraised =>
      cases hrun
      rw [if_neg (by simp [streamReply, hraised])]
      have hyields : actions n (((deltas (streamReply E a system maxTokens)).map Frame.delta).map
          Emit.yield : List (Emit Frame Metered)) = [] := actions_yields _ n
      rwa [List.map_map] at hyields
    · next hraised =>
      cases hrun
      have hraised : (streamReply E a system maxTokens).raised = none := hraised
      simp only [hraised, true_and, meter_some he]
      have hact := actions_yields_act
        ((deltas (streamReply E a system maxTokens)).map Frame.delta ++
          [.finish .stop (streamedCounts E a q h system (streamReply E a system maxTokens)).1
            (streamedCounts E a q h system (streamReply E a system maxTokens)).2
            (citationsOf E a kept (deltas (streamReply E a system maxTokens)).flatten), .done])
        (⟨e, (streamedCounts E a q h system (streamReply E a system maxTokens)).1,
          (streamedCounts E a q h system (streamReply E a system maxTokens)).2⟩ : Metered) n
      rw [List.map_append, List.map_map, List.length_append, List.length_map] at hact
      exact hact

/-- An abstention is metered exactly if it is read to its end. -/
theorem exactly_abstains_iff (he : e ≠ "") (himg : hasImageParts a.messages = false) {q : Queries}
    {sent : List InferenceRequest} (hf : (fitted E a).outcome = (.ok (.abstains q), sent)) :
    MeteredExactly E a e n ↔ 3 < n := by
  have hmet := meteredBy_abstains (n := n) he himg hf
  by_cases hn : 3 < n
  · rw [if_pos hn] at hmet
    rw [exactly_iff_of_singleton hmet, tokensUsed, hf, ← (fitted_spec hf).1]
    simp [hn, Fitted.queries]
  · rw [if_neg hn] at hmet
    exact ⟨fun hm ↦ absurd hm (not_exactly_of_nil hmet), fun hn' ↦ absurd hn' hn⟩

/-- An answer is metered exactly if the engine completes it, it is read to its end, and it is
counted right. -/
theorem exactly_ready_iff (he : e ≠ "") (himg : hasImageParts a.messages = false) {q : Queries}
    {h : Handle} {system : Option Str} {kept : List RetrievedChunk} {maxTokens : Int}
    {sent : List InferenceRequest}
    (hf : (fitted E a).outcome = (.ok (.ready q h system kept maxTokens), sent)) :
    MeteredExactly E a e n ↔
      ((streamReply E a system maxTokens).raised = none ∧
        (deltas (streamReply E a system maxTokens)).length + 2 < n) ∧
      CountedRight a h system (streamReply E a system maxTokens) := by
  obtain ⟨hq, hsilent⟩ := fitted_spec hf
  have hmet := meteredBy_ready (n := n) he himg hf
  by_cases hend : (streamReply E a system maxTokens).raised = none ∧
      (deltas (streamReply E a system maxTokens)).length + 2 < n
  · rw [if_pos hend] at hmet
    have hgen : generatedBy n (streamReply E a system maxTokens).tokens =
        (streamReply E a system maxTokens).tokens.length :=
      generatedBy_eq_length (lt_of_le_of_lt (Nat.le_add_right _ 2) hend.2)
    rw [exactly_iff_of_singleton hmet, tokensUsed, hf, ← hq]
    simp only [hgen, Fitted.queries, hend, true_and, and_self]
    exact countedRight_iff (hsilent q h system kept maxTokens rfl)
  · rw [if_neg hend] at hmet
    exact ⟨fun hm ↦ absurd hm (not_exactly_of_nil hmet), fun hr ↦ absurd hr.1 hend⟩

/-- For every run with an endpoint, on either backend, for every reply of the engine and wherever
the client stops: the run is metered exactly if and only if it is read to its end and the final
request is counted right. -/
theorem metered_iff (he : e ≠ "") :
    MeteredExactly E a e n ↔ ReadToEnd E a n ∧ CountsRight E a := by
  cases himg : hasImageParts a.messages with
  | true =>
      have hraises : (chatStream E a (some e)).outcome.1 = .error (.invalidRequest
          "Streaming with image content is not supported; send stream=false.") := by
        simp only [chatStream, himg, if_true]
        rfl
      have hnil : meteredBy E a e n = [] := by rw [meteredBy, hraises]
      refine ⟨fun hm ↦ absurd hm (not_exactly_of_nil hnil), ?_⟩
      intro hr
      cases himg.symm.trans hr.1.1
  | false =>
      rw [ReadToEnd, CountsRight]
      rcases hf : (fitted E a).outcome with ⟨_ | v, sent⟩
      · have hnil : meteredBy E a e n = [] := by rw [meteredBy_of_fitted himg, hf]
        exact ⟨fun hm ↦ absurd hm (not_exactly_of_nil hnil), fun hr ↦ hr.1.2.elim⟩
      · cases v with
        | abstains q =>
            rw [exactly_abstains_iff he himg hf]
            simp [himg]
        | ready q h system kept maxTokens =>
            rw [exactly_ready_iff he himg hf]
            simp [himg]

end

/-! ## Two runs -/

/-- The arguments of a streamed question of the help desk. -/
def deskArgs (chunks : Nat) (messages : List Turn) : ServiceArgs :=
  serviceArgs (deskDb chunks) Keys.helpDesk deskProject none
    { deskRequest none with messages := messages }

/-- One user turn. -/
def firstTurn : List Turn := [⟨.user, .text (str "Do you have a desk?")⟩]

/-- Two user turns, so that the question is condensed. -/
def threeTurns : List Turn :=
  firstTurn ++ [⟨.assistant, .text (str "Yes.")⟩, ⟨.user, .text (str "When does it open?")⟩]

/-- A question whose answer is read to its end is metered exactly. -/
theorem metered_deskEnv : MeteredExactly deskEnv (deskArgs 0 firstTurn) "e" 5 := by
  apply (metered_iff (by decide)).mpr
  have hready : (fitted deskEnv (deskArgs 0 firstTurn)).outcome.1.toOption.any (fun
      | .ready _ h _ _ _ => h.backend = .llamaCpp
      | .abstains _ => false) = true := by decide +kernel
  have hread : (deltas greeting).length + 2 < 5 := by decide
  have htext : ∀ t ∈ greeting.tokens, t ≠ [] := by decide
  rw [ReadToEnd, CountsRight]
  rcases hf : (fitted deskEnv (deskArgs 0 firstTurn)).outcome with ⟨_ | v, sent⟩
  · rw [hf] at hready
    cases hready
  · rw [hf] at hready
    cases v with
    | abstains q => cases hready
    | ready q h system kept maxTokens =>
        have hb : h.backend = .llamaCpp := of_decide_eq_true hready
        refine ⟨⟨rfl, rfl, hread⟩, ?_⟩
        simp only [CountedRight, hb]
        exact htext

/-- The help desk on an Ollama host.  The condensation call is reported with 30 and 8 tokens; the
stream of the answer, a prompt of 25 tokens and two tokens of text, ends without a `done`
frame. -/
def brokenOllama : Env :=
  { deskEnv with
    settings := { deskEnv.settings with
      servingBackend := .ollama, ollamaModelMap := fun _ ↦ some "qwen2.5:3b" }
    reply := fun req ↦
      if req.maxTokens = condenseMaxTokens then
        ⟨[str "When does the desk open?"], .stop, 30, some 30, some 8, true, none⟩
      else ⟨[str "At ", str "nine."], .stop, 25, none, none, false, none⟩ }

/-- The condensation call is metered twice, and the answer not at all. -/
theorem brokenOllama_meters_twice :
    meteredBy brokenOllama (deskArgs 1 threeTurns) "e" 10 = [⟨"e", 60, 16⟩] ∧
      tokensUsed brokenOllama (deskArgs 1 threeTurns) 10 = 30 + 8 + 25 + 2 ∧
      ¬MeteredExactly brokenOllama (deskArgs 1 threeTurns) "e" 10 := by
  have hmet : meteredBy brokenOllama (deskArgs 1 threeTurns) "e" 10 = [⟨"e", 60, 16⟩] := by
    decide +kernel
  have hused : tokensUsed brokenOllama (deskArgs 1 threeTurns) 10 = 30 + 8 + 25 + 2 := by
    decide +kernel
  refine ⟨hmet, hused, ?_⟩
  intro hm
  have hsum := (exactly_iff_of_singleton hmet).mp hm
  rw [hused] at hsum
  cases hsum

end Adapta.Chat
