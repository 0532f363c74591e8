import Adapta.Chat.Backend
import Adapta.Chat.Router
import Adapta.Lib.Generator

/-!
# The chat service

`chat` and `chat_stream` of `adapta/services/chat.py`, each written out as the source has it.
Both split off the client's system text, retrieve (on a condensed question if the conversation
has several user turns), abstain without a model call if nothing was found, fit the prompt into
the window and call the backend.

A computation logs the requests it hands to the backend (`Serve`).  `chat_stream` is a generator:
what it raises before its first frame ends the computation, and after that it is the list of its
frames and of its calls of `record_usage`.

Requests with image parts are not streamed; `chat` hands them to `_chat_vision`, which is a
parameter.  Ids, times and log lines are left out.
-/

namespace Adapta.Chat

open Api Lib Rag
open Keys (EndpointId)

/-- A computation that may raise, with the requests handed to the backend so far. -/
abbrev Serve := ExceptT DomainError (StateM (List InferenceRequest))

/-- A call that hands nothing to the backend. -/
def Serve.lift {α : Type} : Except DomainError α → Serve α
  | .ok a => pure a
  | .error e => throw e

/-- The backend is handed a request. -/
def Serve.hand (req : InferenceRequest) : Serve Unit := modify fun sent ↦ sent ++ [req]

/-! ## Retrieval -/

/-- What `_retrieval_queries` returns. -/
structure Queries where
  query : List Str
  promptTokens : Nat
  completionTokens : Nat
  /-- The handle, if one was prepared. -/
  handle : Option Handle

section

variable (E : Env)

/-- The request of the condensation call. -/
def condenseRequest (modelName : String) (adapterPath : Option String) (messages : List Turn) :
    InferenceRequest where
  messages := [⟨.user, condensePrompt messages⟩]
  modelName := modelName
  temperature := 0
  topP := E.settings.topP
  topK := E.settings.topK
  maxTokens := condenseMaxTokens
  stream := false
  systemPrompt := some (str condenseSystem)
  adapterPath := adapterPath
  responseFormat := none

/-- The question in the model's output. -/
def questionOf (content : Str) : Option Str :=
  match textLines (strip content) with
  | [] => none
  | line :: _ => (nonempty? (stripQuotes (strip line))).map (·.take 400)

/-- `_condense_query`, and the handle after it: a failed call costs nothing. -/
def condenseQuery (h : Handle) (modelName : String) (adapterPath : Option String)
    (messages : List Turn) : Serve (Option Str × Nat × Nat × Handle) := do
  let req := condenseRequest E modelName adapterPath messages
  Serve.hand req
  match generate E h req with
  | .error _ => pure (none, 0, 0, h)
  | .ok (resp, h) =>
      pure (questionOf resp.content, resp.promptTokens, resp.completionTokens, h)

/-- `_retrieval_queries`. -/
def retrievalQueries (modelName : String) (adapterPath : Option String) (messages : List Turn)
    (condense : Bool) : Serve Queries := do
  let original := (messages.getLast?.map fun m ↦ flattenText m.content).getD []
  if !condense || userTurnCount messages < 2 || strip original = [] then
    pure ⟨[original], 0, 0, none⟩
  else do
    let h ← Serve.lift (prepare E modelName adapterPath)
    let (question, pt, ct, h) ← condenseQuery E h modelName adapterPath messages
    match question with
    | none => pure ⟨[original], pt, ct, some h⟩
    | some q =>
        if E.lower (strip q) = E.lower (strip original) then pure ⟨[original], pt, ct, some h⟩
        else pure ⟨[q, original], pt, ct, some h⟩

/-- `_resolve_rag_top_k`. -/
def resolveRagTopK (p : Option ProjectId) (topKRag : Option Nat) : Except DomainError Nat :=
  match topKRag, p.filter (· ≠ "") with
  | some k, _ => .ok k
  | none, none => .ok E.settings.ragTopK
  | none, some p => E.teamTopK p

/-- `apply_min_score`. -/
def applyMinScore (chunks : List RetrievedChunk) (minScore : Rat) : List RetrievedChunk :=
  if minScore ≤ 0 then chunks else chunks.filter fun c ↦ c.lexicalOnly || minScore ≤ c.score

/-- `_retrieve`. -/
def retrieveChunks (p : ProjectId) (query : List Str) (topK : Nat)
    (filters : Option RetrievalFilters) : Except DomainError (List RetrievedChunk) :=
  (E.retrieve p query topK filters).map fun chunks ↦ applyMinScore chunks E.settings.ragMinScore

/-! ## In one piece -/

/-- The completion `chat` returns. -/
structure Completion where
  content : Str
  finishReason : FinishReason
  promptTokens : Nat
  completionTokens : Nat
  citations : Option (List Citation)

/-- An exception that is no `DomainError` becomes one. -/
def asFailure (message : String) : DomainError → DomainError
  | .other => .inferenceFailed message
  | e => e

/-- `Message(role=m["role"], content=flatten_text(m["content"]))`. -/
def flatMessage (m : Turn) : Message := ⟨m.role, flattenText m.content⟩

/-- `min(max_tokens or settings.max_tokens, settings.max_tokens)`. -/
def cappedMaxTokens (maxTokens : Option Int) : Int :=
  min ((maxTokens.filter (· ≠ 0)).getD E.settings.maxTokens) E.settings.maxTokens

/-- `chat`. -/
def chat (vision : ServiceArgs → Rat → Int → Rat → Serve Completion) (a : ServiceArgs)
    (topP : Option Rat) : Serve Completion := do
  let temperature := a.temperature.getD E.settings.temperature
  let maxTokens := cappedMaxTokens E a.maxTokens
  let topP := (topP.filter (· ≠ 0)).getD E.settings.topP
  if hasImageParts a.messages then vision a temperature maxTokens topP
  else do
    let (messages, clientSystem) := splitClientSystem a.messages
    let project := a.projectId.filter (· ≠ "")
    let (q, chunks) ← (match project with
      | none => pure (⟨[], 0, 0, none⟩, [])
      | some p => do
          let q ← retrievalQueries E a.modelName a.adapterPath messages a.condense
          let topK ← Serve.lift (resolveRagTopK E a.projectId a.topKRag)
          let chunks ← Serve.lift (retrieveChunks E p q.query topK a.ragFilters)
          pure (q, chunks) : Serve (Queries × List RetrievedChunk))
    if project.isSome ∧ chunks = [] then
      pure ⟨str abstentionAnswer, .stop, q.promptTokens, q.completionTokens, some []⟩
    else do
      let inferenceMessages := messages.map flatMessage
      let h ← (match q.handle with
        | some h => pure h
        | none => Serve.lift (prepare E a.modelName a.adapterPath) : Serve Handle)
      let (fullSystem, kept, maxTokens) ← Serve.lift
        (fitContext (countPromptTokens E h inferenceMessages)
          (contextSize E h a.modelName a.adapterPath)
          (fun kept ↦ buildSystem (a.systemPrompt.map str) project.isSome kept
            a.projectId.isSome clientSystem)
          chunks maxTokens)
      let req : InferenceRequest :=
        { messages := inferenceMessages
          modelName := a.modelName
          temperature := temperature
          topP := topP
          topK := E.settings.topK
          maxTokens := maxTokens
          stream := false
          systemPrompt := fullSystem
          adapterPath := a.adapterPath
          responseFormat := a.responseFormat }
      Serve.hand req
      match generate E h req with
      | .error e => throw (asFailure "Inference failed" e)
      | .ok (response, _) =>
          pure
            { content := response.content
              finishReason := response.finishReason
              promptTokens := response.promptTokens + q.promptTokens
              completionTokens := response.completionTokens + q.completionTokens
              citations := project.map fun _ ↦
                if isAbstention E.lower response.content then [] else formatCitations kept }

/-! ## As a stream -/

/-- A frame of the answer. -/
inductive Frame where
  | delta (content : Str)
  | finish (finishReason : FinishReason) (promptTokens completionTokens : Nat)
      (citations : Option (List Citation))
  | done
deriving DecidableEq

/-- A call of `record_usage`. -/
structure Metered where
  endpoint : EndpointId
  promptTokens : Nat
  completionTokens : Nat
deriving DecidableEq, Repr

abbrev Frames := Generator Frame Metered DomainError

/-- `if endpoint_id: await record_usage(...)`. -/
def meter (endpoint : Option EndpointId) (promptTokens completionTokens : Nat) :
    List (Emit Frame Metered) :=
  ((endpoint.filter (· ≠ "")).map fun e ↦ Emit.act ⟨e, promptTokens, completionTokens⟩).toList

/-- `chat_stream`. -/
def chatStream (a : ServiceArgs) (endpointId : Option EndpointId) : Serve Frames := do
  let temperature := a.temperature.getD E.settings.temperature
  let maxTokens := cappedMaxTokens E a.maxTokens
  if hasImageParts a.messages then
    throw (.invalidRequest "Streaming with image content is not supported; send stream=false.")
  else do
    let (messages, clientSystem) := splitClientSystem a.messages
    let project := a.projectId.filter (· ≠ "")
    let (q, chunks) ← (match project with
      | none => pure (⟨[], 0, 0, none⟩, [])
      | some p => do
          let q ← retrievalQueries E a.modelName a.adapterPath messages a.condense
          let topK ← Serve.lift (resolveRagTopK E a.projectId a.topKRag)
          let chunks ← Serve.lift (retrieveChunks E p q.query topK a.ragFilters)
          pure (q, chunks) : Serve (Queries × List RetrievedChunk))
    if project.isSome ∧ chunks = [] then
      pure
        { events := [.delta (str abstentionAnswer),
            .finish .stop q.promptTokens q.completionTokens (some []), .done].map .yield ++
            meter endpointId q.promptTokens q.completionTokens
          raised := none }
    else do
      let inferenceMessages := messages.map flatMessage
      let h ← (match q.handle with
        | some h => pure h
        | none => Serve.lift (prepare E a.modelName a.adapterPath) : Serve Handle)
      let (fullSystem, kept, maxTokens) ← Serve.lift
        (fitContext (countPromptTokens E h inferenceMessages)
          (contextSize E h a.modelName a.adapterPath)
          (fun kept ↦ buildSystem (a.systemPrompt.map str) project.isSome kept
            a.projectId.isSome clientSystem)
          chunks maxTokens)
      -- `top_p` is not passed: the request has the default
      let req : InferenceRequest :=
        { messages := inferenceMessages
          modelName := a.modelName
          temperature := temperature
          topP := E.settings.topP
          topK := E.settings.topK
          maxTokens := maxTokens
          stream := true
          systemPrompt := fullSystem
          adapterPath := a.adapterPath
          responseFormat := a.responseFormat }
      let promptTokens := countPromptTokens E h inferenceMessages fullSystem
      Serve.hand req
      let reply := replyTo E req
      let tokens := (deltas reply).map fun t ↦ Emit.yield (Frame.delta t)
      match reply.raised with
      | some e =>
          pure { events := tokens, raised := some (asFailure "Streaming inference failed" e) }
      | none =>
          let (pt, ct) := (streamedHandle h reply).usage.getD (promptTokens, (deltas reply).length)
          let pt := pt + q.promptTokens
          let ct := ct + q.completionTokens
          let citations := project.map fun _ ↦
            if isAbstention E.lower (deltas reply).flatten then [] else formatCitations kept
          pure
            { events := tokens ++ [.yield (.finish .stop pt ct citations), .yield .done] ++
                meter endpointId pt ct
              raised := none }

end

end Adapta.Chat
