import Adapta.Chat.Fit
import Adapta.Chat.Vision

/-!
# Condensation and the original question

A request with several user turns is condensed into one question before documents are retrieved.
What `_condense_query` of `adapta/services/chat.py` raises is caught, and the question of the user
is to be among the queries in any case.  Two things escape it: the text that stands for the
question is that of the last turn, whoever has it, and the model is prepared for the condensation
outside of the guard.  A request that is answered without the model, because nothing is found,
then fails when the model cannot be prepared.
-/

namespace Adapta.Chat

open Api Lib Rag
open Keys (EndpointId)

variable {E : Env} {V : VisionEnv} {a : ServiceArgs} {p : ProjectId}

/-! ## Computations that return -/

/-- The computation returns a value with the property. -/
def Serve.Returns {α : Type} (c : Serve α) (s : List InferenceRequest) (P : α → Prop) : Prop :=
  ∃ v t, c.run.run s = (.ok v, t) ∧ P v

section

variable {α β : Type} {s : List InferenceRequest} {P : β → Prop}

theorem Serve.returns_pure {v : β} : (pure v : Serve β).Returns s P ↔ P v := by
  constructor
  · rintro ⟨_, _, h, hv⟩
    cases h
    exact hv
  · intro hv
    exact ⟨v, s, rfl, hv⟩

theorem Serve.returns_throw {e : DomainError} : ¬(throw e : Serve β).Returns s P := by
  rintro ⟨_, _, h, -⟩
  cases h

theorem Serve.returns_bind {x : Serve α} {f : α → Serve β} : (x >>= f).Returns s P ↔
    ∃ v t, x.run.run s = (.ok v, t) ∧ (f v).Returns t P := by
  constructor
  · rintro ⟨w, t, h, hw⟩
    obtain ⟨v, t', hv, hrest⟩ := Serve.run_bind_ok h
    exact ⟨v, t', hv, w, t, hrest, hw⟩
  · rintro ⟨v, t, hv, w, t', hrest, hw⟩
    refine ⟨w, t', ?_, hw⟩
    rw [Serve.run_bind, hv]
    exact hrest

theorem Serve.returns_hand_bind {req : InferenceRequest} {f : Unit → Serve β} :
    (Serve.hand req >>= f).Returns s P ↔ (f ()).Returns (s ++ [req]) P := by
  rw [Serve.Returns, Serve.run_hand_bind]
  rfl

theorem Serve.returns_lift_bind {x : Except DomainError α} {f : α → Serve β} :
    (Serve.lift x >>= f).Returns s P ↔ ∃ v, x = .ok v ∧ (f v).Returns s P := by
  rw [Serve.returns_bind]
  constructor
  · rintro ⟨v, t, hv, hrest⟩
    cases x with
    | error e => cases hv
    | ok w =>
        cases hv
        exact ⟨v, rfl, hrest⟩
  · rintro ⟨v, rfl, hrest⟩
    exact ⟨v, s, rfl, hrest⟩

end

/-! ## The condensation step -/

/-- The text of the last turn that is not a system turn. -/
def originalText (messages : List Turn) : Str :=
  ((splitClientSystem messages).1.getLast?.map fun m ↦ flattenText m.content).getD []

/-- The text of the last user turn. -/
def lastUserText (messages : List Turn) : Option Str :=
  (messages.filter (·.role = .user)).getLast?.map fun m ↦ flattenText m.content

/-- The conversation is condensed. -/
def Condenses (a : ServiceArgs) : Prop :=
  a.condense = true ∧ 2 ≤ userTurnCount (splitClientSystem a.messages).1 ∧
    strip (originalText a.messages) ≠ []

instance : Decidable (Condenses a) := inferInstanceAs (Decidable (_ ∧ _ ∧ _))

/-- The model can be prepared. -/
def Preparable (E : Env) (a : ServiceArgs) : Prop :=
  E.prepareError (getBackend E a.modelName a.adapterPath) a.modelName a.adapterPath = none

/-- The handle that is prepared. -/
def freshHandle (E : Env) (a : ServiceArgs) : Handle :=
  ⟨getBackend E a.modelName a.adapterPath, none⟩

/-- The condensed question, if there is one and it is another. -/
def condensedQuestion (E : Env) (a : ServiceArgs) : Option Str :=
  match generate E (freshHandle E a)
    (condenseRequest E a.modelName a.adapterPath (splitClientSystem a.messages).1) with
  | .error _ => none
  | .ok (resp, _) => (questionOf resp.content).filter fun q ↦
      E.lower (strip q) ≠ E.lower (strip (originalText a.messages))

/-- The queries of a request of a project. -/
def queriesOf (E : Env) (a : ServiceArgs) : List Str :=
  (if Condenses a then (condensedQuestion E a).toList else []) ++ [originalText a.messages]

/-- A computation of the queries. -/
abbrev queriesRun (E : Env) (a : ServiceArgs) : Serve Queries :=
  retrievalQueries E a.modelName a.adapterPath (splitClientSystem a.messages).1 a.condense

theorem prepare_eq : prepare E a.modelName a.adapterPath =
    match E.prepareError (getBackend E a.modelName a.adapterPath) a.modelName a.adapterPath with
    | some e => .error e
    | none => .ok (freshHandle E a) := rfl

/-- The guard of the condensation. -/
theorem guard_eq_true_iff : (!a.condense || userTurnCount (splitClientSystem a.messages).1 < 2 ||
    strip (originalText a.messages) = []) = true ↔ ¬Condenses a := by
  simp only [Condenses, Bool.or_eq_true, Bool.not_eq_true', decide_eq_true_eq, not_and_or,
    not_le, not_not, or_assoc, Bool.not_eq_true]

theorem backend_of_generate {h h' : Handle} {req : InferenceRequest} {r : InferenceResponse}
    (hg : generate E h req = .ok (r, h')) : h'.backend = h.backend := by
  simp only [generate] at hg
  split at hg
  · cases hg
  · split at hg <;> cases hg <;> rfl

/-- The queries, if the conversation is not condensed. -/
theorem queriesRun_of_not (h : ¬Condenses a) (s : List InferenceRequest) :
    (queriesRun E a).run.run s = (.ok ⟨[originalText a.messages], 0, 0, none⟩, s) := by
  rw [queriesRun, retrievalQueries]
  exact congrArg (fun c : Serve Queries ↦ c.run.run s) (if_pos (guard_eq_true_iff.mpr h))

/-- The queries, once the model is prepared. -/
def preparedQueries (E : Env) (a : ServiceArgs) (h : Handle) : Serve Queries := do
  let (question, pt, ct, h) ←
    condenseQuery E h a.modelName a.adapterPath (splitClientSystem a.messages).1
  match question with
  | none => pure ⟨[originalText a.messages], pt, ct, some h⟩
  | some q =>
      if E.lower (strip q) = E.lower (strip (originalText a.messages)) then
        pure ⟨[originalText a.messages], pt, ct, some h⟩
      else pure ⟨[q, originalText a.messages], pt, ct, some h⟩

/-- If the conversation is condensed, then the model is prepared first. -/
theorem queriesRun_of_condenses (h : Condenses a) : queriesRun E a =
    Serve.lift (prepare E a.modelName a.adapterPath) >>= preparedQueries E a := by
  rw [queriesRun, retrievalQueries]
  exact if_neg fun hguard ↦ guard_eq_true_iff.mp hguard h

/-- A model that cannot be prepared ends the request. -/
theorem not_returns_of_unprepared (h : Condenses a) (hp : ¬Preparable E a)
    {s : List InferenceRequest} {P : Queries → Prop} : ¬(queriesRun E a).Returns s P := by
  rw [queriesRun_of_condenses h, Serve.returns_lift_bind]
  rintro ⟨handle, hprepare, -⟩
  rw [prepare_eq] at hprepare
  split at hprepare
  · cases hprepare
  · next hnone => exact hp hnone

/-- The queries come with a handle that is as good as a new one. -/
def Queries.Sound (E : Env) (a : ServiceArgs) (q : Queries) : Prop :=
  ∀ h, q.handle = some h →
    Preparable E a ∧ h.backend = getBackend E a.modelName a.adapterPath

/-- After the model is prepared nothing fails. -/
theorem queriesRun_of_prepared (h : Condenses a) (hp : Preparable E a)
    (s : List InferenceRequest) : ∃ q t handle, (queriesRun E a).run.run s = (.ok q, t) ∧
      q.query = queriesOf E a ∧ q.handle = some handle ∧
      handle.backend = getBackend E a.modelName a.adapterPath := by
  have hprepare : prepare E a.modelName a.adapterPath = .ok (freshHandle E a) := by
    rw [prepare_eq, show E.prepareError _ _ _ = none from hp]
  have hreturns : (queriesRun E a).Returns s fun q ↦ q.query = queriesOf E a ∧
      ∃ handle, q.handle = some handle ∧
        handle.backend = getBackend E a.modelName a.adapterPath := by
    rw [queriesRun_of_condenses h, Serve.returns_lift_bind]
    refine ⟨_, hprepare, ?_⟩
    rw [queriesOf, if_pos h, condensedQuestion, preparedQueries]
    simp only [condenseQuery, bind_assoc]
    rw [Serve.returns_hand_bind]
    cases hgen : generate E (freshHandle E a)
      (condenseRequest E a.modelName a.adapterPath (splitClientSystem a.messages).1) with
    | error e =>
        rw [pure_bind, Serve.returns_pure]
        exact ⟨rfl, _, rfl, rfl⟩
    | ok r =>
        have hbackend : r.2.backend = getBackend E a.modelName a.adapterPath :=
          backend_of_generate hgen
        rw [pure_bind]
        cases hq : questionOf r.1.content with
        | none =>
            rw [Serve.returns_pure]
            exact ⟨by simp [hq], _, rfl, hbackend⟩
        | some q =>
            by_cases hsame : E.lower (strip q) = E.lower (strip (originalText a.messages))
            · simp only [hsame, if_true]
              rw [Serve.returns_pure]
              exact ⟨by simp [hq, hsame], _, rfl, hbackend⟩
            · simp only [hsame, if_false]
              rw [Serve.returns_pure]
              exact ⟨by simp [hq, hsame, Option.filter], _, rfl, hbackend⟩
  obtain ⟨q, t, hrun, hquery, handle, hhandle, hbackend⟩ := hreturns
  exact ⟨q, t, handle, hrun, hquery, hhandle, hbackend⟩

/-- A request that is not condensed, or for which the model can be prepared, gets its queries. -/
theorem queriesRun_eq_ok (h : Condenses a → Preparable E a) (s : List InferenceRequest) :
    ∃ q t, (queriesRun E a).run.run s = (.ok q, t) ∧ q.query = queriesOf E a ∧ q.Sound E a := by
  by_cases hcond : Condenses a
  · obtain ⟨q, t, handle, hrun, hquery, hhandle, hb⟩ := queriesRun_of_prepared hcond (h hcond) s
    refine ⟨q, t, hrun, hquery, ?_⟩
    intro handle' hh
    cases hhandle.symm.trans hh
    exact ⟨h hcond, hb⟩
  · refine ⟨_, s, queriesRun_of_not hcond s, ?_, nofun⟩
    rw [queriesOf, if_neg hcond]
    rfl

theorem queriesRun_returns_iff {s : List InferenceRequest} :
    (queriesRun E a).Returns s (fun _ ↦ True) ↔ (Condenses a → Preparable E a) := by
  constructor
  · intro h hcond
    by_contra hprep
    exact not_returns_of_unprepared hcond hprep h
  · intro h
    obtain ⟨q, t, hrun, -⟩ := queriesRun_eq_ok h s
    exact ⟨q, t, hrun, trivial⟩

/-! ## When a request of a project is answered -/

/-- The fit into the window, on a handle. -/
def fitOf (E : Env) (a : ServiceArgs) (h : Handle) (chunks : List RetrievedChunk) :
    Except DomainError (Option Str × List RetrievedChunk × Int) :=
  fitContext (countPromptTokens E h ((splitClientSystem a.messages).1.map flatMessage))
    (contextSize E h a.modelName a.adapterPath)
    (fun kept ↦ buildSystem (a.systemPrompt.map str) (a.projectId.filter (· ≠ "")).isSome kept
      a.projectId.isSome (splitClientSystem a.messages).2)
    chunks (cappedMaxTokens E a.maxTokens)

/-- The fit depends on the backend alone. -/
theorem fitOf_congr {h h' : Handle} (hb : h.backend = h'.backend) (chunks : List RetrievedChunk) :
    fitOf E a h chunks = fitOf E a h' chunks := by
  have hcount : countPromptTokens E h = countPromptTokens E h' := by
    funext messages system
    rw [countPromptTokens, countPromptTokens, hb]
  rw [fitOf, fitOf, hcount, contextSize, contextSize, hb]

/-- The services between retrieval and the prompt. -/
def promptOf (E : Env) (a : ServiceArgs) (q : Queries) (chunks : List RetrievedChunk) :
    Serve Fitted :=
  if (a.projectId.filter (· ≠ "")).isSome ∧ chunks = [] then pure (.abstains q)
  else do
    let h ← (match q.handle with
      | some h => pure h
      | none => Serve.lift (prepare E a.modelName a.adapterPath) : Serve Handle)
    let (system, kept, maxTokens) ← Serve.lift (fitOf E a h chunks)
    pure (.ready q h system kept maxTokens)

/-- A request of a project gets its queries, retrieves and goes on to the prompt. -/
theorem fitted_eq (hp : a.projectId.filter (· ≠ "") = some p) : fitted E a =
    queriesRun E a >>= fun q ↦ Serve.lift (resolveRagTopK E a.projectId a.topKRag) >>= fun topK ↦
      Serve.lift (retrieveChunks E p q.query topK a.ragFilters) >>= promptOf E a q := by
  rw [fitted]
  simp only [hp, bind_assoc, pure_bind]
  apply bind_congr
  intro q
  apply bind_congr
  intro topK
  apply bind_congr
  intro chunks
  cases hq : q.handle with
  | none => simp only [promptOf, fitOf, hp, hq]
  | some h => simp only [promptOf, fitOf, hp, hq]

/-- The engine answers a request that gets to a prompt. -/
def Ends (E : Env) (a : ServiceArgs) (topP : Rat) : Fitted → Prop
  | .abstains _ => True
  | .ready _ _ system _ maxTokens =>
      (replyTo E (answerRequest E a system maxTokens topP false)).raised = none

/-- The model can be prepared, the prompt with these chunks fits its window and the engine
answers it. -/
def Answers (E : Env) (a : ServiceArgs) (topP : Rat) (chunks : List RetrievedChunk) : Prop :=
  Preparable E a ∧ ∃ system kept maxTokens,
    fitOf E a (freshHandle E a) chunks = .ok (system, kept, maxTokens) ∧
      (replyTo E (answerRequest E a system maxTokens topP false)).raised = none

/-- Retrieval on the queries succeeds, and nothing survives or what survives is answered. -/
def Answered (E : Env) (a : ServiceArgs) (p : ProjectId) (topP : Rat) (query : List Str) : Prop :=
  ∃ topK chunks, resolveRagTopK E a.projectId a.topKRag = .ok topK ∧
    retrieveChunks E p query topK a.ragFilters = .ok chunks ∧
      (chunks = [] ∨ Answers E a topP chunks)

theorem prepare_eq_ok_iff {h : Handle} : prepare E a.modelName a.adapterPath = .ok h ↔
    Preparable E a ∧ h = freshHandle E a := by
  rw [prepare_eq, Preparable]
  cases E.prepareError (getBackend E a.modelName a.adapterPath) a.modelName a.adapterPath with
  | some e => simp
  | none => simp [eq_comm]

theorem promptOf_returns {q : Queries} {chunks : List RetrievedChunk} {topP : Rat}
    {s : List InferenceRequest} (hp : a.projectId.filter (· ≠ "") = some p) (hq : q.Sound E a) :
    (promptOf E a q chunks).Returns s (Ends E a topP) ↔
      chunks = [] ∨ Answers E a topP chunks := by
  have hfit : ∀ h : Handle, h.backend = getBackend E a.modelName a.adapterPath →
      ∀ s, ((Serve.lift (fitOf E a h chunks) >>= fun x ↦
        pure (Fitted.ready q h x.1 x.2.1 x.2.2)).Returns s (Ends E a topP) ↔
      ∃ system kept maxTokens,
        fitOf E a (freshHandle E a) chunks = .ok (system, kept, maxTokens) ∧
          (replyTo E (answerRequest E a system maxTokens topP false)).raised = none) := by
    intro h hb s
    have hfresh : fitOf E a h chunks = fitOf E a (freshHandle E a) chunks := fitOf_congr hb chunks
    rw [Serve.returns_lift_bind, hfresh]
    simp only [Serve.returns_pure, Prod.exists]
    rfl
  rw [promptOf, hp]
  by_cases hnil : chunks = []
  · rw [if_pos ⟨rfl, hnil⟩, Serve.returns_pure]
    exact iff_of_true trivial (.inl hnil)
  · rw [if_neg fun hand ↦ hnil hand.2, or_iff_right hnil, Answers]
    cases hhandle : q.handle with
    | some h =>
        obtain ⟨hprep, hb⟩ := hq h hhandle
        rw [pure_bind]
        exact (hfit h hb s).trans (and_iff_right hprep).symm
    | none =>
        rw [Serve.returns_lift_bind]
        simp only [prepare_eq_ok_iff]
        constructor
        · rintro ⟨h, ⟨hprep, rfl⟩, hrest⟩
          exact ⟨hprep, (hfit _ rfl s).mp hrest⟩
        · rintro ⟨hprep, hrest⟩
          exact ⟨_, ⟨hprep, rfl⟩, (hfit _ rfl s).mpr hrest⟩

/-- A request of a project is answered if its condensation does not end it and its queries are
answered. -/
theorem fitted_returns_iff {topP : Rat} (hp : a.projectId.filter (· ≠ "") = some p) :
    (fitted E a).Returns [] (Ends E a topP) ↔
      (Condenses a → Preparable E a) ∧ Answered E a p topP (queriesOf E a) := by
  have hrest : ∀ q s, q.Sound E a →
      ((Serve.lift (resolveRagTopK E a.projectId a.topKRag) >>= fun topK ↦
        Serve.lift (retrieveChunks E p q.query topK a.ragFilters) >>= promptOf E a q).Returns s
          (Ends E a topP) ↔ Answered E a p topP q.query) := by
    intro q s hq
    rw [Serve.returns_lift_bind, Answered]
    simp only [Serve.returns_lift_bind, promptOf_returns hp hq]
    constructor
    · rintro ⟨topK, htop, chunks, hchunks, h⟩
      exact ⟨topK, chunks, htop, hchunks, h⟩
    · rintro ⟨topK, chunks, htop, hchunks, h⟩
      exact ⟨topK, htop, chunks, hchunks, h⟩
  rw [fitted_eq hp, Serve.returns_bind]
  constructor
  · rintro ⟨q, t, hrun, h⟩
    have hready : Condenses a → Preparable E a :=
      queriesRun_returns_iff.mp ⟨q, t, hrun, trivial⟩
    obtain ⟨q', t', hrun', hquery, hsound⟩ := queriesRun_eq_ok (E := E) hready []
    cases hrun.symm.trans hrun'
    exact ⟨hready, hquery ▸ (hrest q t hsound).mp h⟩
  · rintro ⟨hready, h⟩
    obtain ⟨q, t, hrun, hquery, hsound⟩ := queriesRun_eq_ok hready []
    exact ⟨q, t, hrun, (hrest q t hsound).mpr (hquery ▸ h)⟩

theorem completed_returns_iff {topP : Option Rat} {v : Fitted} {s : List InferenceRequest} :
    (completed E a topP v).Returns s (fun _ ↦ True) ↔ Ends E a (effectiveTopP E topP) v := by
  cases v with
  | abstains q =>
      rw [completed, Serve.returns_pure]
      rfl
  | ready q h system kept maxTokens =>
      rw [completed, Serve.returns_hand_bind, Ends]
      cases hraised : (replyTo E
        (answerRequest E a system maxTokens (effectiveTopP E topP) false)).raised with
      | some e =>
          rw [generate_error hraised]
          exact iff_of_false Serve.returns_throw (by simp)
      | none =>
          obtain ⟨response, h', hok, -, -⟩ := generate_ok (h := h) hraised
          rw [hok, Serve.returns_pure]
          exact iff_of_true trivial rfl

theorem streamed_returns_iff {e : Option EndpointId} {v : Fitted} {s : List InferenceRequest} :
    (streamed E a e v).Returns s (fun g ↦ g.raised = none) ↔ Ends E a E.settings.topP v := by
  have hreply : ∀ system maxTokens,
      replyTo E (answerRequest E a system maxTokens E.settings.topP true) =
        replyTo E (answerRequest E a system maxTokens E.settings.topP false) := fun _ _ ↦ rfl
  cases v with
  | abstains q =>
      rw [streamed, Serve.returns_pure]
      exact iff_of_true rfl trivial
  | ready q h system kept maxTokens =>
      rw [streamed, Serve.returns_hand_bind, Ends, hreply]
      cases hraised : (replyTo E
        (answerRequest E a system maxTokens E.settings.topP false)).raised with
      | some e =>
          simp only [hraised]
          rw [Serve.returns_pure]
          simp
      | none =>
          simp only [hraised]
          rw [Serve.returns_pure]
          simp

/-! ## The two calls -/

/-- The same call, with `condense = False`. -/
def ServiceCall.uncondensed : ServiceCall → ServiceCall
  | .stream a e => .stream { a with condense := false } e
  | .plain a topP => .plain { a with condense := false } topP

/-- The `top_p` of the answer. -/
def ServiceCall.topP (E : Env) : ServiceCall → Rat
  | .stream _ _ => E.settings.topP
  | .plain _ topP => effectiveTopP E topP

/-- The call returns a completion, or a stream that does not raise. -/
def Succeeds (E : Env) (V : VisionEnv) : ServiceCall → Prop
  | .stream a e => (chatStream E a (some e)).Returns [] fun g ↦ g.raised = none
  | .plain a topP => (chat E (withImages E V) a topP).Returns [] fun _ ↦ True

/-- A request of text succeeds if it gets to an answer. -/
theorem succeeds_iff (call : ServiceCall) (himg : hasImageParts call.args.messages = false) :
    Succeeds E V call ↔ (fitted E call.args).Returns [] (Ends E call.args (call.topP E)) := by
  cases call with
  | stream a e =>
      rw [Succeeds, chatStream_eq (a := a) himg, Serve.returns_bind]
      simp only [streamed_returns_iff]
      rfl
  | plain a topP =>
      rw [Succeeds, chat_eq (a := a) himg, Serve.returns_bind]
      simp only [completed_returns_iff]
      rfl

/-- The queries that `retrieve` is called with, if it is called. -/
def passed (E : Env) (a : ServiceArgs) : Option (List Str) :=
  if hasImageParts a.messages then none
  else
    match a.projectId.filter (· ≠ ""), (queriesRun E a).outcome.1,
      resolveRagTopK E a.projectId a.topKRag with
    | some _, .ok q, .ok _ => some q.query
    | _, _, _ => none

/-- The question of the user is among the queries, and no request fails that would succeed with
`condense = False`. -/
structure SafeRetrieval (E : Env) (V : VisionEnv) (call : ServiceCall) : Prop where
  original : ∀ query ∈ passed E call.args, ∀ text ∈ lastUserText call.args.messages, text ∈ query
  available : Succeeds E V call.uncondensed → Succeeds E V call

/-! ## When it is safe -/

/-- The engine's reply to the condensation prompt. -/
def condenseReply (E : Env) (a : ServiceArgs) : Reply :=
  replyTo E (condenseRequest E a.modelName a.adapterPath (splitClientSystem a.messages).1)

/-- The engine rewrites the last text: the conversation is condensed with a model that can be
prepared, and the reply has a question that is another. -/
structure Rewritten (E : Env) (a : ServiceArgs) (q : Str) : Prop where
  condenses : Condenses a
  prepared : Preparable E a
  replied : (condenseReply E a).raised = none
  question : questionOf (condenseReply E a).tokens.flatten = some q
  differs : E.lower (strip q) ≠ E.lower (strip (originalText a.messages))

/-- The text that stands for the question is that of the last user turn, unless retrieval is not
reached. -/
def Faithful (E : Env) (a : ServiceArgs) : Prop :=
  (Condenses a → Preparable E a) → (resolveRagTopK E a.projectId a.topKRag).isOk →
    ∀ text ∈ lastUserText a.messages, text = originalText a.messages ∨ Rewritten E a text

/-- What `_fit_context` is given for these chunks. -/
def fittingOf (E : Env) (a : ServiceArgs) (chunks : List RetrievedChunk) : Fitting where
  count := countPromptTokens E (freshHandle E a) ((splitClientSystem a.messages).1.map flatMessage)
  nCtx := contextSize E (freshHandle E a) a.modelName a.adapterPath
  system := fun kept ↦ buildSystem (a.systemPrompt.map str) (a.projectId.filter (· ≠ "")).isSome
    kept a.projectId.isSome (splitClientSystem a.messages).2
  chunks := chunks
  maxTokens := cappedMaxTokens E a.maxTokens

/-- The engine's reply to the prompt with the first `k` chunks. -/
def replyWith (E : Env) (a : ServiceArgs) (topP : Rat) (chunks : List RetrievedChunk) (k : Nat) :
    Reply :=
  replyTo E (answerRequest E a ((fittingOf E a chunks).prompt k) ((fittingOf E a chunks).cap k)
    topP false)

/-- Nothing is found, or the longest prompt that leaves room for an answer gets one. -/
def Servable (E : Env) (a : ServiceArgs) (topP : Rat) (chunks : List RetrievedChunk) : Prop :=
  chunks = [] ∨ ∃ k, (fittingOf E a chunks).Longest k ∧ (replyWith E a topP chunks k).raised = none

/-- What goes wrong with a condensation, when the last text alone finds `raw`. -/
inductive Spoils (E : Env) (a : ServiceArgs) (p : ProjectId) (topP : Rat) (topK : Nat)
    (raw : List RetrievedChunk) : Prop
  /-- The model cannot be prepared, and the request could do without it. -/
  | unprepared : Condenses a → ¬Preparable E a → raw = [] → Spoils E a p topP topK raw
  /-- Retrieval raises on the two queries. -/
  | retrieval (q : Str) (e : DomainError) : Rewritten E a q → Servable E a topP raw →
      retrieveChunks E p [q, originalText a.messages] topK a.ragFilters = .error e →
      Spoils E a p topP topK raw
  /-- The two queries find something, and no prompt leaves room for an answer. -/
  | room (q : Str) (found : List RetrievedChunk) : Rewritten E a q → Servable E a topP raw →
      retrieveChunks E p [q, originalText a.messages] topK a.ragFilters = .ok found →
      found ≠ [] → (∀ k ≤ found.length, ¬(fittingOf E a found).Fits k) →
      Spoils E a p topP topK raw
  /-- The engine raises on the prompt of what they find. -/
  | engine (q : Str) (found : List RetrievedChunk) (k : Nat) (e : DomainError) :
      Rewritten E a q → Servable E a topP raw →
      retrieveChunks E p [q, originalText a.messages] topK a.ragFilters = .ok found →
      found ≠ [] → (fittingOf E a found).Longest k →
      (replyWith E a topP found k).raised = some e → Spoils E a p topP topK raw

theorem mem_queriesOf {text : Str} : text ∈ queriesOf E a ↔
    text = originalText a.messages ∨ Condenses a ∧ condensedQuestion E a = some text := by
  rw [queriesOf, List.mem_append, List.mem_singleton, or_comm]
  by_cases hcond : Condenses a
  · rw [if_pos hcond, Option.mem_toList, and_iff_right hcond]
  · simp [hcond]

theorem queriesOf_of_question {q : Str} (hcond : Condenses a)
    (hq : condensedQuestion E a = some q) : queriesOf E a = [q, originalText a.messages] := by
  rw [queriesOf, if_pos hcond, hq]
  rfl

theorem queriesOf_of_not (h : ∀ q, Condenses a → condensedQuestion E a ≠ some q) :
    queriesOf E a = [originalText a.messages] := by
  rw [queriesOf]
  split
  · next hcond =>
    rw [Option.eq_none_iff_forall_ne_some.mpr fun q ↦ h q hcond]
    rfl
  · rfl

/-- The first line of a text, whether white space was stripped before or not. -/
theorem questionOf_strip (content : Str) : questionOf (strip content) = questionOf content := by
  rw [questionOf, questionOf, strip_strip]

/-- The condensed question is what the engine rewrites the last text to. -/
theorem condensedQuestion_eq_some_iff {q : Str} (hcond : Condenses a) (hprep : Preparable E a) :
    condensedQuestion E a = some q ↔ Rewritten E a q := by
  have hiff : Rewritten E a q ↔ (condenseReply E a).raised = none ∧
      questionOf (condenseReply E a).tokens.flatten = some q ∧
      E.lower (strip q) ≠ E.lower (strip (originalText a.messages)) :=
    ⟨fun h ↦ ⟨h.replied, h.question, h.differs⟩, fun h ↦ ⟨hcond, hprep, h.1, h.2.1, h.2.2⟩⟩
  rw [hiff, condensedQuestion]
  cases hraised : (condenseReply E a).raised with
  | some e =>
      rw [generate_error hraised]
      simp
  | none =>
      have hgenerate : ∃ r, generate E (freshHandle E a)
          (condenseRequest E a.modelName a.adapterPath (splitClientSystem a.messages).1) = .ok r ∧
          questionOf r.1.content = questionOf (condenseReply E a).tokens.flatten := by
        rw [condenseReply] at hraised ⊢
        simp only [generate, hraised]
        cases (freshHandle E a).backend with
        | llamaCpp => exact ⟨_, rfl, questionOf_strip _⟩
        | ollama => exact ⟨_, rfl, rfl⟩
      obtain ⟨r, hr, hcontent⟩ := hgenerate
      rw [hr]
      show (questionOf r.1.content).filter _ = some q ↔ _
      rw [hcontent, Option.filter_eq_some_iff, decide_eq_true_eq, and_iff_right rfl]

theorem queriesOf_of_rewritten {q : Str} (h : Rewritten E a q) :
    queriesOf E a = [q, originalText a.messages] :=
  queriesOf_of_question h.condenses ((condensedQuestion_eq_some_iff h.condenses h.prepared).mpr h)

theorem queriesOf_of_not_rewritten (hready : Condenses a → Preparable E a)
    (h : ∀ q, ¬Rewritten E a q) : queriesOf E a = [originalText a.messages] := by
  apply queriesOf_of_not
  intro q hcond hq
  exact h q ((condensedQuestion_eq_some_iff hcond (hready hcond)).mp hq)

theorem mem_queriesOf_iff {text : Str} (hready : Condenses a → Preparable E a) :
    text ∈ queriesOf E a ↔ text = originalText a.messages ∨ Rewritten E a text := by
  rw [mem_queriesOf]
  refine or_congr_right ⟨fun ⟨hcond, hq⟩ ↦ ?_, fun h ↦ ⟨h.condenses, ?_⟩⟩
  · exact (condensedQuestion_eq_some_iff hcond (hready hcond)).mp hq
  · exact (condensedQuestion_eq_some_iff h.condenses h.prepared).mpr h

/-- On a model that can be prepared. -/
theorem answers_iff_servable {topP : Rat} {chunks : List RetrievedChunk} (hprep : Preparable E a) :
    (chunks = [] ∨ Answers E a topP chunks) ↔ Servable E a topP chunks := by
  have hfit : fitOf E a (freshHandle E a) chunks = (fittingOf E a chunks).fit := rfl
  refine or_congr_right ?_
  rw [Answers, and_iff_right hprep, hfit]
  constructor
  · rintro ⟨system, kept, maxTokens, hok, hraised⟩
    by_cases hroom : ∀ k ≤ (fittingOf E a chunks).chunks.length, ¬(fittingOf E a chunks).Fits k
    · rw [Fitting.fit_eq_error hroom] at hok
      cases hok
    · push Not at hroom
      obtain ⟨j, hle, hfits⟩ := hroom
      obtain ⟨k, hk, -⟩ := Fitting.exists_longest hle hfits
      rw [hk.fit_eq] at hok
      cases hok
      exact ⟨k, hk, hraised⟩
  · rintro ⟨k, hk, hraised⟩
    exact ⟨_, _, _, hk.fit_eq, hraised⟩

/-- What went wrong costs an answer. -/
theorem Spoils.not_answered {topP : Rat} {topK : Nat} {raw : List RetrievedChunk}
    (h : Spoils E a p topP topK raw) (htop : resolveRagTopK E a.projectId a.topKRag = .ok topK)
    (hraw : retrieveChunks E p [originalText a.messages] topK a.ragFilters = .ok raw) :
    ¬(Answered E a p topP [originalText a.messages] →
      (Condenses a → Preparable E a) ∧ Answered E a p topP (queriesOf E a)) := by
  intro himp
  have hlost : ∀ {q}, Rewritten E a q → Servable E a topP raw →
      ∃ found, retrieveChunks E p [q, originalText a.messages] topK a.ragFilters = .ok found ∧
        Servable E a topP found := by
    intro q hq hservable
    have hanswered := (himp ⟨topK, raw, htop, hraw,
      (answers_iff_servable hq.prepared).mpr hservable⟩).2
    rw [queriesOf_of_rewritten hq] at hanswered
    obtain ⟨topK', found, htop', hfound, hanswers⟩ := hanswered
    cases htop.symm.trans htop'
    exact ⟨found, hfound, (answers_iff_servable hq.prepared).mp hanswers⟩
  cases h with
  | unprepared hcond hprep hnil => exact hprep ((himp ⟨topK, raw, htop, hraw, .inl hnil⟩).1 hcond)
  | retrieval q e hq hservable herror =>
      obtain ⟨found, hfound, -⟩ := hlost hq hservable
      rw [herror] at hfound
      cases hfound
  | room q found hq hservable hfound hne hroom =>
      obtain ⟨found', hfound', hnil | ⟨k, hk, -⟩⟩ := hlost hq hservable
      · cases hfound.symm.trans hfound'
        exact hne hnil
      · cases hfound.symm.trans hfound'
        exact hroom k hk.le hk.fits
  | engine q found k e hq hservable hfound hne hk hraised =>
      obtain ⟨found', hfound', hnil | ⟨k', hk', hnone⟩⟩ := hlost hq hservable
      · cases hfound.symm.trans hfound'
        exact hne hnil
      · cases hfound.symm.trans hfound'
        rw [hk'.unique hk, hraised] at hnone
        cases hnone

/-- A request whose last text was rewritten is answered if nothing went wrong. -/
theorem answered_of_not_spoils {topP : Rat} {topK : Nat} {raw : List RetrievedChunk} {q : Str}
    (hq : Rewritten E a q) (htop : resolveRagTopK E a.projectId a.topKRag = .ok topK)
    (h : ¬Spoils E a p topP topK raw) (hservable : Servable E a topP raw) :
    Answered E a p topP [q, originalText a.messages] := by
  cases hfound : retrieveChunks E p [q, originalText a.messages] topK a.ragFilters with
  | error e => exact absurd (.retrieval q e hq hservable hfound) h
  | ok found =>
      refine ⟨topK, found, htop, hfound, (answers_iff_servable hq.prepared).mpr ?_⟩
      by_cases hne : found = []
      · exact .inl hne
      · by_cases hroom : ∀ k ≤ found.length, ¬(fittingOf E a found).Fits k
        · exact absurd (.room q found hq hservable hfound hne hroom) h
        · push Not at hroom
          obtain ⟨j, hle, hfits⟩ := hroom
          obtain ⟨k, hk, -⟩ := Fitting.exists_longest hle hfits
          cases hraised : (replyWith E a topP found k).raised with
          | none => exact .inr ⟨k, hk, hraised⟩
          | some e => exact absurd (.engine q found k e hq hservable hfound hne hk hraised) h

/-- What `retrieve` is called with. -/
theorem passed_eq_some_iff {query : List Str} (himg : hasImageParts a.messages = false)
    (hp : a.projectId.filter (· ≠ "") = some p) : passed E a = some query ↔
      (Condenses a → Preparable E a) ∧ (resolveRagTopK E a.projectId a.topKRag).isOk ∧
        query = queriesOf E a := by
  rw [passed, himg, hp, if_neg Bool.false_ne_true]
  by_cases hready : Condenses a → Preparable E a
  · obtain ⟨q, t, hrun, hquery, -⟩ := queriesRun_eq_ok hready []
    rw [Serve.outcome, hrun, and_iff_right hready, ← hquery]
    cases resolveRagTopK E a.projectId a.topKRag with
    | error e => simp [Except.isOk, Except.toBool]
    | ok topK => simp [Except.isOk, Except.toBool, eq_comm]
  · refine iff_of_false ?_ fun h ↦ hready h.1
    rcases hrun : (queriesRun E a).run.run [] with ⟨_ | q, t⟩
    · rw [Serve.outcome, hrun]
      intro h
      cases h
    · exact absurd (queriesRun_returns_iff.mp ⟨q, t, hrun, trivial⟩) hready

/-- What a request of text gets to depends on `retrieve` at these queries only. -/
theorem fitted_congr_retrieve
    {r : ProjectId → List Str → Nat → Option RetrievalFilters →
      Except DomainError (List RetrievedChunk)} (himg : hasImageParts a.messages = false)
    (h : ∀ query ∈ passed E a, ∀ p topK,
      r p query topK a.ragFilters = E.retrieve p query topK a.ragFilters) :
    (fitted { E with retrieve := r } a).outcome = (fitted E a).outcome := by
  cases hp : a.projectId.filter (· ≠ "") with
  | none =>
      simp only [fitted, hp]
      rfl
  | some p =>
      rw [Serve.outcome, Serve.outcome, fitted_eq hp, fitted_eq hp, Serve.run_bind, Serve.run_bind]
      have hsame : queriesRun { E with retrieve := r } a = queriesRun E a := rfl
      rw [hsame]
      rcases hrun : (queriesRun E a).run.run [] with ⟨_ | q, t⟩
      · rfl
      · have htop : resolveRagTopK { E with retrieve := r } a.projectId a.topKRag =
            resolveRagTopK E a.projectId a.topKRag := rfl
        simp only [htop]
        cases hk : resolveRagTopK E a.projectId a.topKRag with
        | error e => rfl
        | ok topK =>
            have hpassed : passed E a = some q.query := by
              simp only [passed, himg, hp, Serve.outcome, hrun, hk, Bool.false_eq_true, if_false]
            have hchunks : retrieveChunks { E with retrieve := r } p q.query topK a.ragFilters =
                retrieveChunks E p q.query topK a.ragFilters := by
              rw [retrieveChunks, retrieveChunks]
              exact congrArg _ (h _ hpassed p topK)
            show (Serve.lift (retrieveChunks { E with retrieve := r } p q.query topK
              a.ragFilters) >>= promptOf E a q).run.run t = _
            rw [hchunks]
            rfl

section

variable {call : ServiceCall}

theorem succeeds_project_iff (himg : hasImageParts call.args.messages = false)
    (hp : call.args.projectId.filter (· ≠ "") = some p) : Succeeds E V call ↔
      (Condenses call.args → Preparable E call.args) ∧
        Answered E call.args p (call.topP E) (queriesOf E call.args) :=
  (succeeds_iff call himg).trans (fitted_returns_iff hp)

/-- Without condensation the question alone decides. -/
theorem succeeds_uncondensed_iff (himg : hasImageParts call.args.messages = false)
    (hp : call.args.projectId.filter (· ≠ "") = some p) : Succeeds E V call.uncondensed ↔
      Answered E call.args p (call.topP E) [originalText call.args.messages] := by
  have hnot : ¬Condenses call.uncondensed.args := by
    cases call <;> exact fun h ↦ Bool.false_ne_true h.1
  have himg' : hasImageParts call.uncondensed.args.messages = false := by
    cases call <;> exact himg
  have hp' : call.uncondensed.args.projectId.filter (· ≠ "") = some p := by
    cases call <;> exact hp
  rw [succeeds_project_iff himg' hp', queriesOf_of_not fun _ h ↦ absurd h hnot,
    and_iff_right fun h ↦ absurd h hnot]
  cases call <;> rfl

/-- A request that retrieves nothing does not depend on the flag. -/
theorem succeeds_uncondensed_of_none (h : hasImageParts call.args.messages = true ∨
    call.args.projectId.filter (· ≠ "") = none) :
    Succeeds E V call.uncondensed ↔ Succeeds E V call := by
  by_cases himg : hasImageParts call.args.messages = true
  · cases call with
    | stream a e =>
        have himg : hasImageParts a.messages = true := himg
        simp only [Succeeds, ServiceCall.uncondensed, chatStream, himg, if_true]
    | plain a topP =>
        have himg : hasImageParts a.messages = true := himg
        simp only [Succeeds, ServiceCall.uncondensed, chat, himg, if_true]
        rfl
  · have hp := h.resolve_left himg
    rw [Bool.not_eq_true] at himg
    have hsame : (fitted E call.uncondensed.args).Returns []
        (Ends E call.uncondensed.args (call.uncondensed.topP E)) ↔
          (fitted E call.args).Returns [] (Ends E call.args (call.topP E)) := by
      cases call with
      | stream a e =>
          have hp : a.projectId.filter (· ≠ "") = none := hp
          simp only [ServiceCall.uncondensed, ServiceCall.args, fitted, hp]
          rfl
      | plain a topP =>
          have hp : a.projectId.filter (· ≠ "") = none := hp
          simp only [ServiceCall.uncondensed, ServiceCall.args, fitted, hp]
          rfl
    have himg' : hasImageParts call.uncondensed.args.messages = false := by
      cases call <;> exact himg
    rw [succeeds_iff _ himg', succeeds_iff _ himg, hsame]

/-- No request fails for being condensed if and only if nothing goes wrong with its
condensation. -/
theorem available_iff (himg : hasImageParts call.args.messages = false)
    (hp : call.args.projectId.filter (· ≠ "") = some p) :
    (Succeeds E V call.uncondensed → Succeeds E V call) ↔
      ∀ topK raw, resolveRagTopK E call.args.projectId call.args.topKRag = .ok topK →
        retrieveChunks E p [originalText call.args.messages] topK call.args.ragFilters =
          .ok raw → ¬Spoils E call.args p (call.topP E) topK raw := by
  rw [succeeds_uncondensed_iff himg hp, succeeds_project_iff himg hp]
  constructor
  · intro h topK raw htop hraw hspoils
    exact hspoils.not_answered htop hraw h
  · rintro h ⟨topK, raw, htop, hraw, hanswers⟩
    have hspoils := h topK raw htop hraw
    have hready : Condenses call.args → Preparable E call.args := by
      intro hcond
      by_contra hprep
      rcases hanswers with hnil | hanswers
      · exact hspoils (.unprepared hcond hprep hnil)
      · exact hprep hanswers.1
    refine ⟨hready, ?_⟩
    by_cases hq : ∃ q, Rewritten E call.args q
    · obtain ⟨q, hq⟩ := hq
      rw [queriesOf_of_rewritten hq]
      exact answered_of_not_spoils hq htop hspoils
        ((answers_iff_servable hq.prepared).mp hanswers)
    · rw [queriesOf_of_not_rewritten hready fun q h ↦ hq ⟨q, h⟩]
      exact ⟨topK, raw, htop, hraw, hanswers⟩

end

/-- The request with these turns. -/
def turnsRequest (messages : List Turn) : ChatCompletionRequest :=
  { Keys.helpRequest false (.text []) with messages := messages }

/-- A conversation whose last turn is the assistant's. -/
def answeredTurns : List Turn :=
  [⟨.user, .text (str "When do you open?")⟩, ⟨.assistant, .text (str "From nine.")⟩]

/-- A conversation with two user turns. -/
def secondTurns : List Turn := answeredTurns ++ [⟨.user, .text (str "And close?")⟩]

/-- A model that cannot be prepared, and documents that match nothing. -/
def coldEnv : Env :=
  { deskEnv with
    prepareError := fun _ _ _ ↦
      some (.modelNotFound "Model 'qwen2.5-3b-instruct' could not be loaded")
    retrieve := fun _ _ _ _ ↦ .ok [] }

/-- The arguments of the service for these turns. -/
def turnsArgs (messages : List Turn) : ServiceArgs :=
  serviceArgs (deskDb 1) Keys.helpDesk deskProject none (turnsRequest messages)

end Adapta.Chat
