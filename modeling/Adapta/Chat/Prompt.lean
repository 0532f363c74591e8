import Adapta.Api.Errors
import Adapta.Chat.Request
import Adapta.Rag.Retrieve

/-!
# Prompts

How `adapta/services/chat.py` makes a prompt of a conversation and of what was retrieved: the
client's own system text, the numbered context block, the abstention, the fit into the context
window, and the prompt of the condensation call.

Lower case is a parameter, as it rests on Unicode tables.
-/

namespace Adapta.Chat

open Api Lib Rag

/-! ## Text -/

/-- `sep.join`. -/
def join (sep : Str) (l : List Str) : Str := (l.intersperse sep).flatten

/-- What is joined around one of the strings. -/
theorem join_append_cons (sep : Str) (l : List Str) (x : Str) (r : List Str) :
    join sep (l ++ x :: r) = l.flatMap (· ++ sep) ++ x ++ r.flatMap (sep ++ ·) := by
  induction l with
  | nil =>
      induction r generalizing x with
      | nil => simp [join]
      | cons y r ih =>
          have hrest := ih y
          simp only [join, List.nil_append, List.flatMap_nil, List.intersperse_cons_cons,
            List.flatten_cons, List.flatMap_cons, List.append_assoc] at hrest ⊢
          rw [hrest]
  | cons a l ih =>
      have hcons : join sep (a :: (l ++ x :: r)) = a ++ (sep ++ join sep (l ++ x :: r)) := by
        cases l <;> simp [join]
      rw [List.cons_append, hcons, ih]
      simp only [List.flatMap_cons, List.append_assoc]

/-- The empty string is false. -/
def nonempty? (s : Str) : Option Str := if s = [] then none else some s

/-- A character that ends a line for `str.splitlines`. -/
def isLineBreak (c : Code) : Bool :=
  (10 ≤ c.ord && c.ord ≤ 13) || (28 ≤ c.ord && c.ord ≤ 30) || c.ord ∈ [0x85, 0x2028, 0x2029]

/-- The non-blank lines of `str.splitlines`; whether `\r\n` ends one line or two does not show. -/
def textLines (s : Str) : List Str := (s.splitOnP isLineBreak).filter fun l ↦ strip l ≠ []

/-- `strip("\"'`")`. -/
def stripQuotes (s : Str) : Str :=
  let quote : Code → Bool := fun c ↦ c ∈ str "\"'`"
  (s.dropWhile quote).rdropWhile quote

/-! ## Conversations -/

def userTurnCount (messages : List Turn) : Nat := messages.countP (·.role = .user)

/-- `split_client_system`. -/
def splitClientSystem (messages : List Turn) : List Turn × Option Str :=
  let texts := (messages.filter (·.role = .system)).map fun m ↦ strip (flattenText m.content)
  (messages.filter (·.role ≠ .system), nonempty? (join (str "\n\n") (texts.filter (· ≠ []))))

def condenseHistoryMsgs : Nat := 6

def condenseMsgChars : Nat := 500

def condenseMaxTokens : Int := 40

def condenseSystem : String :=
  "Rewrite the user's last question as one standalone question that can be understood " ++
    "without the conversation: resolve pronouns and references from the earlier turns. " ++
    "Keep the question's language. Do not answer it. Output only the question."

/-- The text of a turn in the condensation prompt. -/
def clipTurn (m : Turn) : Str := (strip (flattenText m.content)).take condenseMsgChars

def condenseLine (m : Turn) : Str :=
  str (if m.role = .user then "User" else "Assistant") ++ str ": " ++ clipTurn m

/-- `_condense_prompt`. -/
def condensePrompt (messages : List Turn) : Str :=
  let history := messages.dropLast.filter fun m ↦ m.role = .user ∨ m.role = .assistant
  let lines := (history.drop (history.length - condenseHistoryMsgs)).map condenseLine
  str "Conversation:\n" ++ join (str "\n") lines ++ str "\n\nLast question: " ++
    (messages.getLast?.map clipTurn).getD []

/-! ## The system prompt -/

/-- One numbered chunk of the context. -/
def contextEntry (i : Nat) (c : RetrievedChunk) : Str :=
  str ("[" ++ toString i ++ "] (source: " ++ c.source ++ ")\n") ++
    (if c.fieldsHeader = "" then [] else str (c.fieldsHeader ++ "\n")) ++ str c.text

/-- `build_context_block`. -/
def buildContextBlock (chunks : List RetrievedChunk) : Str :=
  join (str "\n\n---\n\n") (chunks.zipIdx.map fun x ↦ contextEntry (x.2 + 1) x.1)

structure Citation where
  index : Nat
  source : String
  score : Rat
  scoreKind : ScoreKind
  text : String
  fileId : Option FileId
  page : Option Int
  ocr : Bool
  confidence : Option Rat
deriving DecidableEq

/-- `format_citations`. -/
def formatCitations (chunks : List RetrievedChunk) : List Citation :=
  chunks.zipIdx.map fun x ↦
    ⟨x.2 + 1, x.1.source, roundTo x.1.score 4, x.1.scoreKind, x.1.text, x.1.fileId, x.1.page,
      x.1.ocr, x.1.ocrConfidence⟩

def abstentionAnswer : String := "I can't find that in the documents."

def abstentionLine : String :=
  "If the answer is not in the context, say \"" ++ abstentionAnswer ++ "\" translated into the " ++
    "language the user wrote in, and do not guess or use outside knowledge."

def noContextLine : String := "No passage in the project's documents matched this question."

/-- `is_abstention`. -/
def isAbstention (lower : Str → Str) (text : Str) : Bool :=
  ((lower (str abstentionAnswer)).rdropWhile (· = .char '.')).isPrefixOf (lower (strip text))

/-- `_build_system`. -/
def buildSystem (baseSystem : Option Str) (hasRag : Bool) (chunks : List RetrievedChunk)
    (abstain : Bool) (clientSystem : Option Str) : Option Str :=
  let context :=
    if chunks ≠ [] ∧ hasRag = true then
      [str "Use the following context to answer. Cite sources by their [N] number.\n\n" ++
        buildContextBlock chunks]
    else if abstain then [str noContextLine] else []
  let parts := (baseSystem.filter (· ≠ [])).toList ++ context ++
    (if abstain then [str abstentionLine] else []) ++ (clientSystem.filter (· ≠ [])).toList
  nonempty? (strip (join (str "\n\n") parts))

/-! ## The context window -/

def minGenReserve : Int := 16

def promptTooLong (nPrompt nCtx : Nat) : String :=
  "Prompt is too long (" ++ toString nPrompt ++ " tokens) for the model's " ++ toString nCtx ++
    "-token context window — even with no retrieved context there's no room to answer. " ++
    "Shorten your input."

section

variable (count : Option Str → Nat) (nCtx : Nat) (system : List RetrievedChunk → Option Str)
  (chunks : List RetrievedChunk) (maxTokens : Int)

/-- One round of `_fit_context`: the prompt of the chunks that are kept, or what is done when it
leaves no room for an answer. -/
def fitRound (kept : List RetrievedChunk)
    (otherwise : Nat → Except DomainError (Option Str × List RetrievedChunk × Int)) :
    Except DomainError (Option Str × List RetrievedChunk × Int) :=
  let nPrompt := count (system kept)
  if nPrompt + min minGenReserve maxTokens ≤ nCtx then
    .ok (system kept, kept, max 1 (min maxTokens (nCtx - nPrompt)))
  else otherwise nPrompt

/-- The loop of `_fit_context`, when `k` chunks are left: the least relevant one is dropped. -/
def fitLoop : Nat → Except DomainError (Option Str × List RetrievedChunk × Int)
  | 0 => fitRound count nCtx system maxTokens [] fun nPrompt ↦
      .error (.invalidRequest (promptTooLong nPrompt nCtx))
  | k + 1 => fitRound count nCtx system maxTokens (chunks.take (k + 1)) fun _ ↦ fitLoop k

/-- `_fit_context`. -/
def fitContext : Except DomainError (Option Str × List RetrievedChunk × Int) :=
  fitLoop count nCtx system chunks maxTokens chunks.length

end

end Adapta.Chat
