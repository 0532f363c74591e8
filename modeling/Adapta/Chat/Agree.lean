import Adapta.Chat.Service
import Adapta.Keys.Scoping

/-!
# Streaming and non-streaming agree

`chat` and `chat_stream` are two copies of one pipeline.  Up to the prompt they are the same
(`fitted`), and so are the requests they make of it, but for two things: `chat_stream` is not
given `top_p`, so its request has the configured default, and it reports the finish reason
`stop` whatever the engine says.  They agree on exactly those requests where neither shows.
-/

namespace Adapta.Chat

open Api Lib Rag
open Keys (EndpointId)

variable {E : Env} {vision : ServiceArgs → Rat → Int → Rat → Serve Completion} {a : ServiceArgs}

/-! ## The common part -/

/-- How far a request gets before the backend is asked for an answer. -/
inductive Fitted where
  | abstains (q : Queries)
  | ready (q : Queries) (h : Handle) (system : Option Str) (kept : List RetrievedChunk)
      (maxTokens : Int)

/-- Both services, up to the prompt. -/
def fitted (E : Env) (a : ServiceArgs) : Serve Fitted := do
  let (messages, clientSystem) := splitClientSystem a.messages
  let project := a.projectId.filter (· ≠ "")
  let (q, chunks) ← (match project with
    | none => pure (⟨[], 0, 0, none⟩, [])
    | some p => do
        let q ← retrievalQueries E a.modelName a.adapterPath messages a.condense
        let topK ← Serve.lift (resolveRagTopK E a.projectId a.topKRag)
        let chunks ← Serve.lift (retrieveChunks E p q.query topK a.ragFilters)
        pure (q, chunks) : Serve (Queries × List RetrievedChunk))
  if project.isSome ∧ chunks = [] then pure (.abstains q)
  else do
    let inferenceMessages := messages.map flatMessage
    let h ← (match q.handle with
      | some h => pure h
      | none => Serve.lift (prepare E a.modelName a.adapterPath) : Serve Handle)
    let (fullSystem, kept, maxTokens) ← Serve.lift
      (fitContext (countPromptTokens E h inferenceMessages)
        (contextSize E h a.modelName a.adapterPath)
        (fun kept ↦ buildSystem (a.systemPrompt.map str) project.isSome kept
          a.projectId.isSome clientSystem)
        chunks (cappedMaxTokens E a.maxTokens))
    pure (.ready q h fullSystem kept maxTokens)

/-- The request for the answer. -/
def answerRequest (E : Env) (a : ServiceArgs) (system : Option Str) (maxTokens : Int) (topP : Rat)
    (stream : Bool) : InferenceRequest where
  messages := (splitClientSystem a.messages).1.map flatMessage
  modelName := a.modelName
  temperature := a.temperature.getD E.settings.temperature
  topP := topP
  topK := E.settings.topK
  maxTokens := maxTokens
  stream := stream
  systemPrompt := system
  adapterPath := a.adapterPath
  responseFormat := a.responseFormat

/-- The `top_p` of `chat`. -/
def effectiveTopP (E : Env) (topP : Option Rat) : Rat :=
  (topP.filter (· ≠ 0)).getD E.settings.topP

/-- What `chat` does with the prompt. -/
def completed (E : Env) (a : ServiceArgs) (topP : Option Rat) : Fitted → Serve Completion
  | .abstains q =>
      pure ⟨str abstentionAnswer, .stop, q.promptTokens, q.completionTokens, some []⟩
  | .ready q h system kept maxTokens => do
      let req := answerRequest E a system maxTokens (effectiveTopP E topP) false
      Serve.hand req
      match generate E h req with
      | .error e => throw (asFailure "Inference failed" e)
      | .ok (response, _) =>
          pure
            { content := response.content
              finishReason := response.finishReason
              promptTokens := response.promptTokens + q.promptTokens
              completionTokens := response.completionTokens + q.completionTokens
              citations := (a.projectId.filter (· ≠ "")).map fun _ ↦
                if isAbstention E.lower response.content then [] else formatCitations kept }

/-- The counts `chat_stream` reports: the engine's, if it reported any on the handle. -/
def streamedCounts (E : Env) (a : ServiceArgs) (q : Queries) (h : Handle) (system : Option Str)
    (reply : Reply) : Nat × Nat :=
  let counts := (streamedHandle h reply).usage.getD
    (countPromptTokens E h ((splitClientSystem a.messages).1.map flatMessage) system,
      (deltas reply).length)
  (counts.1 + q.promptTokens, counts.2 + q.completionTokens)

/-- What `chat_stream` does with the prompt. -/
def streamed (E : Env) (a : ServiceArgs) (endpointId : Option EndpointId) : Fitted → Serve Frames
  | .abstains q => pure
      { events := [.delta (str abstentionAnswer),
          .finish .stop q.promptTokens q.completionTokens (some []), .done].map .yield ++
          meter endpointId q.promptTokens q.completionTokens
        raised := none }
  | .ready q h system kept maxTokens => do
      let req := answerRequest E a system maxTokens E.settings.topP true
      Serve.hand req
      let reply := replyTo E req
      let tokens := (deltas reply).map fun t ↦ Emit.yield (Frame.delta t)
      match reply.raised with
      | some e =>
          pure { events := tokens, raised := some (asFailure "Streaming inference failed" e) }
      | none =>
          let counts := streamedCounts E a q h system reply
          let citations := (a.projectId.filter (· ≠ "")).map fun _ ↦
            if isAbstention E.lower (deltas reply).flatten then [] else formatCitations kept
          pure
            { events := tokens ++
                [.yield (.finish .stop counts.1 counts.2 citations), .yield .done] ++
                meter endpointId counts.1 counts.2
              raised := none }

theorem chat_eq (himg : hasImageParts a.messages = false) (topP : Option Rat) :
    chat E vision a topP = fitted E a >>= completed E a topP := by
  simp only [chat, fitted, himg, Bool.false_eq_true, if_false, bind_assoc]
  apply bind_congr
  intro x
  split
  · rw [pure_bind]
    rfl
  · simp only [bind_assoc, pure_bind]
    rfl

theorem chatStream_eq (himg : hasImageParts a.messages = false) (e : Option EndpointId) :
    chatStream E a e = fitted E a >>= streamed E a e := by
  simp only [chatStream, fitted, himg, Bool.false_eq_true, if_false, bind_assoc]
  apply bind_congr
  intro x
  split
  · rw [pure_bind]
    rfl
  · simp only [bind_assoc, pure_bind]
    rfl

/-! ## What is handed over and reported -/

/-- What a computation ends with, and the requests it has handed to the backend. -/
def Serve.outcome {α : Type} (c : Serve α) : Except DomainError α × List InferenceRequest :=
  c.run.run []

/-- A sequence after its first part. -/
theorem Serve.run_bind {α β : Type} (x : Serve α) (f : α → Serve β) (s : List InferenceRequest) :
    (x >>= f).run.run s =
      match x.run.run s with
      | (.ok v, s') => (f v).run.run s'
      | (.error e, s') => (.error e, s') := by
  rw [ExceptT.run_bind, StateT.run_bind]
  rcases x.run.run s with ⟨v | v, s'⟩ <;> rfl

/-- A sequence returned through the value of its first part. -/
theorem Serve.run_bind_ok {α β : Type} {x : Serve α} {f : α → Serve β} {b : β}
    {s s' : List InferenceRequest} (h : (x >>= f).run.run s = (.ok b, s')) :
    ∃ v t, x.run.run s = (.ok v, t) ∧ (f v).run.run t = (.ok b, s') := by
  rw [Serve.run_bind] at h
  rcases hx : x.run.run s with ⟨e | v, t⟩
  · rw [hx] at h
    cases h
  · rw [hx] at h
    exact ⟨v, t, rfl, h⟩

theorem Serve.run_lift_ok {α : Type} {x : Except DomainError α} {v : α}
    {s s' : List InferenceRequest} (h : (Serve.lift x).run.run s = (.ok v, s')) : x = .ok v := by
  cases x with
  | error e => cases h
  | ok w =>
      cases h
      rfl

/-- A request is logged, whatever follows. -/
theorem Serve.run_hand_bind {β : Type} (req : InferenceRequest) (f : Unit → Serve β)
    (s : List InferenceRequest) : (Serve.hand req >>= f).run.run s = (f ()).run.run (s ++ [req]) :=
  rfl

/-- The request but for the flag. -/
def unstreamed (req : InferenceRequest) : InferenceRequest := { req with stream := false }

structure Report where
  citations : Option (List Citation)
  finishReason : FinishReason
deriving DecidableEq

def Completion.report (c : Completion) : Report := ⟨c.citations, c.finishReason⟩

def Frame.report? : Frame → Option Report
  | .finish finishReason _ _ citations => some ⟨citations, finishReason⟩
  | .delta _ | .done => none

/-- What the frames of a stream report. -/
def streamReport (g : Frames) : Option Report :=
  (g.events.filterMap Emit.yield?).findSome? Frame.report?

/-- Both services hand the backend the same requests, and report the same. -/
structure Agree (E : Env) (vision : ServiceArgs → Rat → Int → Rat → Serve Completion)
    (a : ServiceArgs) (topP : Option Rat) (e : Option EndpointId) : Prop where
  requests : (chat E vision a topP).outcome.2.map unstreamed =
    (chatStream E a e).outcome.2.map unstreamed
  report : (chat E vision a topP).outcome.1.toOption.map Completion.report =
    (chatStream E a e).outcome.1.toOption.bind streamReport

/-- If the request gets to a prompt, then `top_p` is the default and an answer that the engine
completes ends with `stop`. -/
def Alike (E : Env) (a : ServiceArgs) (topP : Option Rat) : Prop :=
  ∀ q h system kept maxTokens sent,
    (fitted E a).outcome = (.ok (.ready q h system kept maxTokens), sent) →
    effectiveTopP E topP = E.settings.topP ∧
      ((replyTo E (answerRequest E a system maxTokens E.settings.topP true)).raised = none →
        (replyTo E (answerRequest E a system maxTokens E.settings.topP true)).finishReason = .stop)

/-! ## The answer -/

theorem isAbstention_strip (lower : Str → Str) (t : Str) :
    isAbstention lower (strip t) = isAbstention lower t := by
  rw [isAbstention, isAbstention, strip_strip]

/-- Tokens without text add nothing to the answer. -/
theorem flatten_deltas (r : Reply) : (deltas r).flatten = r.tokens.flatten := by
  rw [deltas]
  exact List.flatten_filter_ne_nil

/-- An answer in one piece has the engine's finish reason, and is an abstention if its text is. -/
theorem generate_ok {h : Handle} {req : InferenceRequest} (hr : (replyTo E req).raised = none) :
    ∃ response h', generate E h req = .ok (response, h') ∧
      response.finishReason = (replyTo E req).finishReason ∧
      isAbstention E.lower response.content =
        isAbstention E.lower (replyTo E req).tokens.flatten := by
  cases hb : h.backend with
  | llamaCpp =>
      simp only [generate, hr, hb, Except.ok.injEq, Prod.mk.injEq]
      exact ⟨_, _, ⟨rfl, rfl⟩, rfl, isAbstention_strip _ _⟩
  | ollama =>
      simp only [generate, hr, hb, Except.ok.injEq, Prod.mk.injEq]
      exact ⟨_, _, ⟨rfl, rfl⟩, rfl, rfl⟩

theorem generate_error {h : Handle} {req : InferenceRequest} {e : DomainError}
    (hr : (replyTo E req).raised = some e) : generate E h req = .error e := by
  simp [generate, hr]

/-- The tokens of an answer report nothing. -/
theorem streamReport_tokens (l : List Str) (e : Option DomainError) :
    streamReport ⟨l.map fun t ↦ .yield (.delta t), e⟩ = none := by
  induction l with
  | nil => rfl
  | cons t l ih => exact ih

/-- A stream that ends reports what its last frame says. -/
theorem streamReport_finish (l : List Str) (r : FinishReason) (pt ct : Nat)
    (citations : Option (List Citation)) (acts : List (Emit Frame Metered))
    (e : Option DomainError) :
    streamReport ⟨(l.map fun t ↦ .yield (.delta t)) ++
      [.yield (.finish r pt ct citations), .yield .done] ++ acts, e⟩ = some ⟨citations, r⟩ := by
  induction l with
  | nil => rfl
  | cons t l ih => exact ih

/-! ## The two ends of the pipeline -/

section

variable {q : Queries} {h : Handle} {system : Option Str} {kept : List RetrievedChunk}
  {maxTokens : Int} {sent : List InferenceRequest} {topP : Option Rat} {e : Option EndpointId}

/-- The citations of an answer with this text. -/
def citationsOf (E : Env) (a : ServiceArgs) (kept : List RetrievedChunk) (text : Str) :
    Option (List Citation) :=
  (a.projectId.filter (· ≠ "")).map fun _ ↦
    if isAbstention E.lower text then [] else formatCitations kept

theorem completed_sent : ((completed E a topP (.ready q h system kept maxTokens)).run.run sent).2 =
    sent ++ [answerRequest E a system maxTokens (effectiveTopP E topP) false] := by
  simp only [completed, Serve.run_hand_bind]
  split <;> rfl

theorem streamed_sent : ((streamed E a e (.ready q h system kept maxTokens)).run.run sent).2 =
    sent ++ [answerRequest E a system maxTokens E.settings.topP true] := by
  simp only [streamed, Serve.run_hand_bind]
  split <;> rfl

/-- `chat` reports the engine's finish reason, if the engine completes the answer. -/
theorem completed_report {r : Reply}
    (hr : replyTo E (answerRequest E a system maxTokens (effectiveTopP E topP) false) = r) :
    ((completed E a topP (.ready q h system kept maxTokens)).run.run sent).1.toOption.map
        Completion.report =
      if r.raised = none then some ⟨citationsOf E a kept r.tokens.flatten, r.finishReason⟩
      else none := by
  subst hr
  simp only [completed, Serve.run_hand_bind]
  split
  · next e hgen =>
    have hraised : (replyTo E (answerRequest E a system maxTokens (effectiveTopP E topP)
        false)).raised ≠ none := by
      intro hnone
      obtain ⟨response, h', hok, -⟩ := generate_ok (h := h) hnone
      cases hok.symm.trans hgen
    rw [if_neg hraised]
    rfl
  · next response h' hgen =>
    cases hraised : (replyTo E (answerRequest E a system maxTokens (effectiveTopP E topP)
        false)).raised with
    | some e => cases (generate_error hraised).symm.trans hgen
    | none =>
        obtain ⟨response', h'', hok, hfinish, htext⟩ := generate_ok (h := h) hraised
        cases hok.symm.trans hgen
        rw [if_pos rfl, ← hfinish, citationsOf, ← htext]
        rfl

/-- `chat_stream` reports `stop`. -/
theorem streamed_report {r : Reply}
    (hr : replyTo E (answerRequest E a system maxTokens E.settings.topP true) = r) :
    ((streamed E a e (.ready q h system kept maxTokens)).run.run sent).1.toOption.bind
        streamReport =
      if r.raised = none then some ⟨citationsOf E a kept r.tokens.flatten, .stop⟩ else none := by
  subst hr
  simp only [streamed, Serve.run_hand_bind]
  split
  · next e' hraised =>
    rw [if_neg (by simp [hraised])]
    exact streamReport_tokens _ _
  · next hraised =>
    rw [if_pos hraised, citationsOf, ← flatten_deltas]
    exact streamReport_finish _ _ _ _ _ _ _

end

/-! ## The result -/

/-- The outcome of a service after the common part. -/
theorem outcome_of_fitted {α : Type} {c : Serve α} {f : Fitted → Serve α}
    (hc : c = fitted E a >>= f) : c.outcome =
      match (fitted E a).outcome with
      | (.ok v, sent) => (f v).run.run sent
      | (.error e, sent) => (.error e, sent) := by
  rw [hc, Serve.outcome, Serve.run_bind, Serve.outcome]
  rcases (fitted E a).run.run [] with ⟨_ | _, _⟩ <;> rfl

/-- The requests differ in `top_p` at most. -/
theorem unstreamed_eq_iff {system : Option Str} {maxTokens : Int} {x y : Rat} :
    unstreamed (answerRequest E a system maxTokens x false) =
      unstreamed (answerRequest E a system maxTokens y true) ↔ x = y := by
  constructor
  · intro h
    exact congrArg InferenceRequest.topP h
  · rintro rfl
    rfl

/-- Where a request gets to a prompt, the two services agree if and only if neither difference
shows. -/
theorem agree_ready_iff {q : Queries} {h : Handle} {system : Option Str}
    {kept : List RetrievedChunk} {maxTokens : Int} {sent : List InferenceRequest}
    {topP : Option Rat} {e : Option EndpointId} (himg : hasImageParts a.messages = false)
    (hf : (fitted E a).outcome = (.ok (.ready q h system kept maxTokens), sent)) :
    Agree E vision a topP e ↔ effectiveTopP E topP = E.settings.topP ∧
      ((replyTo E (answerRequest E a system maxTokens E.settings.topP true)).raised = none →
        (replyTo E (answerRequest E a system maxTokens E.settings.topP true)).finishReason =
          .stop) := by
  have hchat : (chat E vision a topP).outcome = _ := outcome_of_fitted (chat_eq himg topP)
  have hstream : (chatStream E a e).outcome = _ := outcome_of_fitted (chatStream_eq himg e)
  rw [hf] at hchat hstream
  -- the flag does not change the reply
  have hreply : ∀ x, replyTo E (answerRequest E a system maxTokens x false) =
      replyTo E (answerRequest E a system maxTokens x true) := fun _ ↦ rfl
  constructor
  · rintro ⟨hreq, hrep⟩
    rw [hchat, hstream] at hreq hrep
    rw [completed_sent, streamed_sent, List.map_append, List.map_append,
      List.append_cancel_left_eq, List.map_singleton, List.map_singleton,
      List.singleton_inj, unstreamed_eq_iff] at hreq
    refine ⟨hreq, ?_⟩
    intro hraised
    rw [completed_report rfl, streamed_report rfl, hreq, hreply, if_pos hraised,
      if_pos hraised] at hrep
    exact congrArg Report.finishReason (Option.some.inj hrep)
  · rintro ⟨htop, hstop⟩
    constructor
    · rw [hchat, hstream, completed_sent, streamed_sent, htop, List.map_append, List.map_append,
        List.map_singleton, List.map_singleton, unstreamed_eq_iff.mpr rfl]
    · rw [hchat, hstream, completed_report rfl, streamed_report rfl, htop, hreply]
      split
      · next hraised => exact congrArg some (congrArg _ (hstop hraised))
      · rfl

/-- The two services agree on a request without images if and only if neither difference
shows. -/
theorem agree_iff_alike (himg : hasImageParts a.messages = false) (topP : Option Rat)
    (e : Option EndpointId) : Agree E vision a topP e ↔ Alike E a topP := by
  have hchat : (chat E vision a topP).outcome = _ := outcome_of_fitted (chat_eq himg topP)
  have hstream : (chatStream E a e).outcome = _ := outcome_of_fitted (chatStream_eq himg e)
  rcases hf : (fitted E a).outcome with ⟨_ | v, sent⟩
  · -- both raise what the common part raises
    rw [hf] at hchat hstream
    have hagree : Agree E vision a topP e := by
      constructor
      · rw [hchat, hstream]
      · rw [hchat, hstream]
        rfl
    simp [hagree, Alike, hf]
  · cases v with
    | abstains q =>
        rw [hf] at hchat hstream
        have hagree : Agree E vision a topP e := by
          constructor
          · rw [hchat, hstream]
            rfl
          · rw [hchat, hstream]
            rfl
        simp [hagree, Alike, hf]
    | ready q h system kept maxTokens =>
        rw [agree_ready_iff himg hf]
        constructor
        · intro hboth q' h' system' kept' maxTokens' sent' heq
          rw [hf] at heq
          cases heq
          exact hboth
        · intro halike
          exact halike q h system kept maxTokens sent hf

/-- A request without images is admitted streamed or not, with the same arguments. -/
theorem serve_both {n : Nat} {db : Keys.Db} {e : Keys.Endpoint} {p : Keys.Project}
    {r : ChatCompletionRequest} {v : Served} (himg : hasImageParts r.messages = false)
    (hv : serve n db e p r = .ok v) :
    ∃ path, adapterPath db e = .ok path ∧
      serve n db e p { r with stream := false } =
        .ok ⟨e, p, .plain (serviceArgs db e p path r) r.topP⟩ ∧
      serve n db e p { r with stream := true } =
        .ok ⟨e, p, .stream (serviceArgs db e p path r) e.id⟩ := by
  obtain ⟨hslug, hsize, -, hadapter⟩ := Keys.serve_isOk_iff.mp ⟨v, hv⟩
  obtain ⟨path, hpath⟩ := Keys.adapterPath_isOk_iff.mpr hadapter
  refine ⟨path, hpath, ?_, ?_⟩
  · simp only [serve, hslug, hpath, ne_eq, not_true_eq_false, if_false, Nat.not_lt.mpr hsize,
      Bool.false_and, Bool.false_eq_true]
    rfl
  · simp only [serve, hslug, hpath, himg, ne_eq, not_true_eq_false, if_false,
      Nat.not_lt.mpr hsize, Bool.and_false, Bool.false_eq_true]
    rfl

/-- For every request without images that the route admits, the streamed and the plain answer
agree if and only if, should it get as far as a prompt, its `top_p` is the default and the engine
ends the answer with `stop`. -/
theorem streaming_agrees_iff (E : Env)
    (vision : ServiceArgs → Rat → Int → Rat → Serve Completion) {n : Nat} {db : Keys.Db}
    {sha256 : String → String} {scan : Scan} {auth : String} {r : ChatCompletionRequest}
    {v : Served} (himg : hasImageParts r.messages = false)
    (hv : chatCompletions n db sha256 scan auth r = .ok v) :
    ∃ e p a, chatCompletions n db sha256 scan auth { r with stream := false } =
        .ok ⟨e, p, .plain a r.topP⟩ ∧
      chatCompletions n db sha256 scan auth { r with stream := true } =
        .ok ⟨e, p, .stream a e.id⟩ ∧
      (Agree E vision a r.topP (some e.id) ↔ Alike E a r.topP) := by
  obtain ⟨⟨e, p⟩, hres, hserve⟩ := bind_eq_ok.mp hv
  obtain ⟨path, -, hplain, hstream⟩ := serve_both himg hserve
  exact ⟨e, p, serviceArgs db e p path r, bind_eq_ok.mpr ⟨(e, p), hres, hplain⟩,
    bind_eq_ok.mpr ⟨(e, p), hres, hstream⟩, agree_iff_alike himg r.topP (some e.id)⟩

/-! ## Two requests -/

def deskProject : Keys.Project :=
  ⟨"3f2a-9c", "t", "Help Desk", some "Be brief.", .rag, "qwen2.5-3b-instruct"⟩

/-- The project with some indexed chunks, its endpoint and a key. -/
def deskDb (chunks : Nat) : Keys.Db :=
  ⟨[deskProject], [Keys.helpDesk], [Keys.firstRow], [], fun _ ↦ chunks, fun _ _ ↦ none⟩

/-- What the engine of the runs answers. -/
def greeting : Reply := ⟨[str "Hel", str "lo"], .stop, 12, none, none, false, none⟩

/-- llama.cpp with the default settings, and an engine that greets. -/
def deskEnv : Env where
  settings := ⟨7 / 10, 9 / 10, 40, 512, 5, 0, 2048, .llamaCpp, fun _ ↦ none⟩
  lower := id
  tokenize := List.length
  nCtx _ _ := 4096
  prepareError _ _ _ := none
  reply _ := greeting
  retrieve _ _ _ _ := .ok
    [⟨"Open from nine.", "hours.txt", 3 / 4, 0, .vector, "f_0", some "f", none, false, none, false,
      ""⟩]
  teamTopK _ := .ok 5

/-- Requests with images are not part of the runs. -/
def noVision : ServiceArgs → Rat → Int → Rat → Serve Completion := fun _ _ _ _ ↦ throw .other

/-- A question, with a `top_p` or without. -/
def deskRequest (topP : Option Rat) : ChatCompletionRequest :=
  { Keys.helpRequest false (.text (str "When do you open?")) with topP := topP }

theorem desk_resolves : resolveEndpoint Keys.digest .plain (deskDb 0) Keys.firstAuth =
    .ok (Keys.helpDesk, deskProject) := by decide

theorem desk_serves (topP : Option Rat) :
    ∃ v, serve 100000 (deskDb 0) Keys.helpDesk deskProject (deskRequest topP) = .ok v := by
  have hsize : totalChars [⟨.user, .text (str "When do you open?")⟩] ≤ 100000 := by decide
  exact Keys.serve_isOk_iff.mpr ⟨rfl, hsize, by simp [deskRequest, Keys.helpRequest], nofun⟩

/-- A question without `top_p` is answered alike. -/
theorem streaming_agrees_deskRequest : ∃ e p a,
    chatCompletions 100000 (deskDb 0) Keys.digest .plain Keys.firstAuth
        { deskRequest none with stream := false } = .ok ⟨e, p, .plain a none⟩ ∧
      chatCompletions 100000 (deskDb 0) Keys.digest .plain Keys.firstAuth
        { deskRequest none with stream := true } = .ok ⟨e, p, .stream a e.id⟩ ∧
      Agree deskEnv noVision a none (some e.id) := by
  obtain ⟨v, hv⟩ := desk_serves none
  obtain ⟨e, p, a, hplain, hstream, hiff⟩ := streaming_agrees_iff deskEnv noVision
    (r := deskRequest none) (by decide) (bind_eq_ok.mpr ⟨_, desk_resolves, hv⟩)
  refine ⟨e, p, a, hplain, hstream, hiff.mpr ?_⟩
  intro q h system kept maxTokens sent _
  exact ⟨rfl, fun _ ↦ rfl⟩

/-- With `top_p` 0.5 the plain request has it, and the streamed one has the default. -/
theorem streamed_topP_lost : ∃ e p a,
    chatCompletions 100000 (deskDb 0) Keys.digest .plain Keys.firstAuth
        { deskRequest (some (1 / 2)) with stream := false } =
          .ok ⟨e, p, .plain a (some (1 / 2))⟩ ∧
      chatCompletions 100000 (deskDb 0) Keys.digest .plain Keys.firstAuth
        { deskRequest (some (1 / 2)) with stream := true } = .ok ⟨e, p, .stream a e.id⟩ ∧
      ¬Agree deskEnv noVision a (some (1 / 2)) (some e.id) := by
  obtain ⟨v, hv⟩ := desk_serves (some (1 / 2))
  obtain ⟨path, hpath, hplain, hstream⟩ :=
    serve_both (r := deskRequest (some (1 / 2))) (by decide) hv
  cases hpath
  refine ⟨_, _, _, bind_eq_ok.mpr ⟨_, desk_resolves, hplain⟩,
    bind_eq_ok.mpr ⟨_, desk_resolves, hstream⟩, ?_⟩
  intro hagree
  have hreq := congrArg (List.map InferenceRequest.topP) hagree.requests
  revert hreq
  decide +kernel

end Adapta.Chat
