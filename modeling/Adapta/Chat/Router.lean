import Adapta.Chat.Request
import Adapta.Keys.Rows

/-!
# The completions route

`adapta/api/v1/chat.py`: the bearer key is resolved to an endpoint and its project, the request
is checked, and the service is called with what the two rows and the request say.

The rows of a `SELECT` without an order come in any order; that order is a parameter (`Scan`).
-/

namespace Adapta.Chat

open Api Keys Lib

/-- The order in which a `SELECT` returns rows. -/
structure Scan where
  order : List ApiKey → List ApiKey
  perm : ∀ l, (order l).Perm l

/-- The order of the table. -/
def Scan.plain : Scan := ⟨id, fun l ↦ .refl l⟩

/-- `auth.lower().startswith("bearer ")`, and the rest of the header.  A header has only
characters of Latin-1, where a capital and its small letter are one character each. -/
def bearer (auth : String) : Option String :=
  if (auth.toList.take 7).map Char.toLower = "bearer ".toList then
    some (String.ofList (auth.toList.drop 7))
  else none

section

variable (sha256 : String → String) (scan : Scan) (db : Db)

/-- The rows with the first characters of the key, in the order they are tried. -/
def candidates (raw : String) : List ApiKey :=
  scan.order (db.keys.filter fun k ↦ k.keyPrefix = clip raw 8 ∧ k.isActive)

/-- `_resolve_endpoint`, from the header. -/
def resolveEndpoint (auth : String) : Except DomainError (Endpoint × Project) :=
  match bearer auth with
  | none => .error (.unauthorized "Bearer token required")
  | some raw =>
      match (candidates scan db raw).find? fun k ↦ verifyApiKey sha256 raw k.keyHash with
      | none => .error (.unauthorized "Invalid or revoked API key")
      | some key =>
          match db.endpoints.find? (·.id = key.endpoint) with
          | none => .error (.invalidRequest "Endpoint is not active")
          | some endpoint =>
              if endpoint.status ≠ .active then
                .error (.invalidRequest "Endpoint is not active")
              else
                match db.projects.find? (·.id = endpoint.project) with
                | none => .error (.notFound "Project not found")
                | some project => .ok (endpoint, project)

end

/-! ## The call of the service -/

/-- The arguments both services take. -/
structure ServiceArgs where
  modelName : String
  messages : List Turn
  temperature : Option Rat
  maxTokens : Option Int
  systemPrompt : Option String
  projectId : Option ProjectId
  topKRag : Option Nat
  ragFilters : Option Rag.RetrievalFilters
  condense : Bool
  adapterPath : Option String
  responseFormat : Option ResponseFormat

inductive ServiceCall where
  /-- `chat_stream`. -/
  | stream (args : ServiceArgs) (endpointId : EndpointId)
  /-- `chat`. -/
  | plain (args : ServiceArgs) (topP : Option Rat)

def ServiceCall.args : ServiceCall → ServiceArgs
  | .stream args _ | .plain args _ => args

/-- The endpoint that the service meters; the answer in one piece is metered by the route. -/
def ServiceCall.endpointId : ServiceCall → Option EndpointId
  | .stream _ endpointId => some endpointId
  | .plain _ _ => none

/-- A request that reaches the service. -/
structure Served where
  endpoint : Endpoint
  project : Project
  call : ServiceCall

section

variable (maxInputChars : Nat) (db : Db)

/-- The bound adapter's file; an endpoint with an adapter that has none is not served. -/
def adapterPath (e : Endpoint) : Except DomainError (Option String) :=
  match e.adapter.bind fun a ↦ db.adapters.find? (·.id = a) with
  | none => pure none
  | some a =>
      match a.ggufPath.filter (· ≠ "") with
      | some path => pure (some path)
      | none => .error (.invalidRequest
          "This endpoint's adapter has no servable GGUF; re-import the adapter.")

def tooLong (n : Nat) : String :=
  "Total message content (" ++ toString n ++ " chars) exceeds maximum allowed (" ++
    toString maxInputChars ++
    " chars). Reduce message size or increase ADAPTA_MAX_INPUT_CHARS."

/-- The arguments of the service. -/
def serviceArgs (e : Endpoint) (p : Project) (path : Option String) (r : ChatCompletionRequest) :
    ServiceArgs where
  modelName := e.baseModel
  messages := r.messages
  temperature := r.temperature
  maxTokens := r.maxTokens
  systemPrompt := p.systemPrompt
  projectId := if 0 < db.chunks p.id then some p.id else none
  topKRag := r.adapta.bind AdaptaOptions.topK
  ragFilters := (r.adapta.bind AdaptaOptions.filters).bind ragFilters
  condense := r.adapta.all fun o ↦ o.condense ≠ some false
  adapterPath := path
  responseFormat := formatOf r.responseFormat

/-- The route after the key is resolved. -/
def serve (e : Endpoint) (p : Project) (r : ChatCompletionRequest) : Except DomainError Served :=
  if r.model ≠ e.slug then
    .error (.forbidden ("API key is not authorized for model '" ++ r.model ++ "'"))
  else if maxInputChars < totalChars r.messages then
    .error (.invalidRequest (tooLong maxInputChars (totalChars r.messages)))
  else if r.stream && hasImageParts r.messages then
    .error (.invalidRequest
      "Streaming with image content is not supported; send stream=false.")
  else do
    let path ← adapterPath db e
    let args := serviceArgs db e p path r
    pure ⟨e, p, if r.stream then .stream args e.id else .plain args r.topP⟩

/-- `chat_completions`. -/
def chatCompletions (sha256 : String → String) (scan : Scan) (auth : String)
    (r : ChatCompletionRequest) : Except DomainError Served := do
  let (e, p) ← resolveEndpoint sha256 scan db auth
  serve maxInputChars db e p r

end

end Adapta.Chat
