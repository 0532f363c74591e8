import Adapta.Chat.Prompt

/-!
# Serving backends

`adapta/core/backends`: the choice of a backend, the count of a prompt's tokens, and generation
in one piece or as a stream, for llama.cpp in the process and for an Ollama host.

What the engine does with a request is its `Reply`: the text of each token it generates, why it
stops, and what it reports.  It is a function of the request, the same whether the answer is
streamed or not.  A handle remembers the counts the engine reported last; only Ollama reports
them, a stream in its last frame.

## What is abstracted

* The chat template and the grammar, which llama.cpp takes from the model's name and from the
  response format.  All registered templates are ChatML.
* The lock and the thread pool (see `Adapta.Inference`), and deadlines: a call that times out
  raises.
* The tokenizer, as the number of tokens of a text.
-/

namespace Adapta.Chat

open Api Lib Rag

/-- `Message` of `adapta/core/inference.py`. -/
structure Message where
  role : MessageRole
  content : Str
deriving DecidableEq, Repr

structure InferenceRequest where
  messages : List Message
  modelName : String
  temperature : Rat
  topP : Rat
  topK : Nat
  maxTokens : Int
  stream : Bool
  systemPrompt : Option Str
  adapterPath : Option String
  responseFormat : Option ResponseFormat

inductive FinishReason where
  | stop
  | length
deriving DecidableEq, Repr

structure InferenceResponse where
  content : Str
  finishReason : FinishReason
  promptTokens : Nat
  completionTokens : Nat

/-- What the engine does with a request. -/
structure Reply where
  /-- The text of each token; a token may have none. -/
  tokens : List Str
  finishReason : FinishReason
  /-- The number of tokens of the prompt, by the engine's own tokenizer. -/
  promptTokens : Nat
  /-- `prompt_eval_count` and `eval_count`, if Ollama sends them. -/
  promptEvalCount : Option Nat
  evalCount : Option Nat
  /-- A stream of Ollama ends with a `done` frame. -/
  done : Bool
  /-- The call raises, after these tokens. -/
  raised : Option DomainError

inductive Backend where
  | llamaCpp
  | ollama
deriving DecidableEq, Repr

/-- `BackendHandle`, with its `usage`. -/
structure Handle where
  backend : Backend
  usage : Option (Nat × Nat)
deriving DecidableEq, Repr

structure ServingSettings where
  temperature : Rat
  topP : Rat
  topK : Nat
  maxTokens : Int
  ragTopK : Nat
  ragMinScore : Rat
  maxContextLength : Nat
  servingBackend : Backend
  ollamaModelMap : String → Option String

/-- What serving calls. -/
structure Env where
  settings : ServingSettings
  lower : Str → Str
  tokenize : Str → Nat
  /-- The window of a loaded model. -/
  nCtx : String → Option String → Nat
  /-- Why a model cannot be prepared. -/
  prepareError : Backend → String → Option String → Option DomainError
  /-- The engine, for a request whose `stream` is cleared. -/
  reply : InferenceRequest → Reply
  /-- `RAGService.retrieve`, under its deadline. -/
  retrieve : ProjectId → List Str → Nat → Option RetrievalFilters →
    Except DomainError (List RetrievedChunk)
  /-- The setting `rag_top_k` of the project's team. -/
  teamTopK : ProjectId → Except DomainError Nat

/-! ## Prompts and their size -/

def MessageRole.value : MessageRole → String
  | .system => "system"
  | .user => "user"
  | .assistant => "assistant"

def chatmlTurn (role : String) (content : Str) : Str :=
  str ("<|im_start|>" ++ role ++ "\n") ++ content ++ str "<|im_end|>"

/-- `_render_chatml`. -/
def renderChatml (system : Option Str) (messages : List Message) : Str :=
  join (str "\n") ((system.filter (· ≠ [])).toList.map (chatmlTurn "system") ++
    messages.map (fun m ↦ chatmlTurn m.role.value m.content) ++ [str "<|im_start|>assistant\n"])

def charsPerToken : Nat := 3

def perMessageOverhead : Nat := 4

/-- Ollama has no tokenizer to ask: an estimate. -/
def estimateTokens (messages : List Message) (system : Option Str) : Nat :=
  let chars := (system.getD []).length + (messages.map fun m ↦ m.content.length).sum
  let framing := perMessageOverhead *
    (messages.length + if (system.filter (· ≠ [])).isSome then 1 else 0)
  (chars + (charsPerToken - 1)) / charsPerToken + framing

section

variable (E : Env)

/-- `get_backend`. -/
def getBackend (modelName : String) (adapterPath : Option String) : Backend :=
  if E.settings.servingBackend = .ollama ∧ (adapterPath.filter (· ≠ "")).isNone ∧
      (E.settings.ollamaModelMap modelName).isSome then .ollama
  else .llamaCpp

/-- `get_backend` and `prepare`. -/
def prepare (modelName : String) (adapterPath : Option String) : Except DomainError Handle :=
  let backend := getBackend E modelName adapterPath
  match E.prepareError backend modelName adapterPath with
  | some e => .error e
  | none => .ok ⟨backend, none⟩

def contextSize (h : Handle) (modelName : String) (adapterPath : Option String) : Nat :=
  match h.backend with
  | .llamaCpp => E.nCtx modelName adapterPath
  | .ollama => E.settings.maxContextLength

def countPromptTokens (h : Handle) (messages : List Message) (system : Option Str) : Nat :=
  match h.backend with
  | .llamaCpp => E.tokenize (renderChatml system messages)
  | .ollama => estimateTokens messages system

/-! ## Generation -/

/-- The engine's reply, streamed or not. -/
def replyTo (req : InferenceRequest) : Reply := E.reply { req with stream := false }

/-- `generate`, and the handle after it. -/
def generate (h : Handle) (req : InferenceRequest) :
    Except DomainError (InferenceResponse × Handle) :=
  let r := replyTo E req
  match r.raised with
  | some e => .error e
  | none =>
      match h.backend with
      | .llamaCpp => .ok (⟨strip r.tokens.flatten, r.finishReason, r.promptTokens,
          r.tokens.length⟩, h)
      | .ollama =>
          let counts := (r.promptEvalCount.getD 0, r.evalCount.getD 0)
          .ok (⟨r.tokens.flatten, r.finishReason, counts.1, counts.2⟩,
            { h with usage := some counts })

/-- What `generate_stream` yields: a token without text is skipped. -/
def deltas (r : Reply) : List Str := r.tokens.filter (· ≠ [])

/-- The handle after `generate_stream` has ended. -/
def streamedHandle (h : Handle) (r : Reply) : Handle :=
  match h.backend with
  | .llamaCpp => h
  | .ollama =>
      if r.done then { h with usage := some (r.promptEvalCount.getD 0, r.evalCount.getD 0) } else h

end

end Adapta.Chat
