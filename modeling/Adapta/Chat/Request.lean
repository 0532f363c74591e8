import Mathlib.Algebra.GroupWithZero.Nat
import Adapta.Lib.Json
import Adapta.Rag.Filters

/-!
# Requests for a completion

`ChatCompletionRequest` of the generated models, and the reading of a message's content in
`adapta/services/chat.py`.  Content is a text or an array of text and image parts.

Temperatures and probabilities are rationals.  The bounds of the request model's fields
(`temperature`, `top_p`, `top_k`, the length of a parts array) are checked before the route runs
and are not assumed here.
-/

namespace Adapta.Chat

open Lib

inductive MessageRole where
  | system
  | user
  | assistant
deriving DecidableEq, Repr

inductive ContentPart where
  | text (s : Str)
  | imageUrl (url : Str)
deriving DecidableEq, Repr

inductive Content where
  | text (s : Str)
  | parts (l : List ContentPart)
deriving DecidableEq, Repr

/-- A turn, as the service takes it. -/
structure Turn where
  role : MessageRole
  content : Content
deriving DecidableEq, Repr

/-- The `response_format` of a request. -/
inductive ResponseFormat where
  | text
  | jsonObject
  | jsonSchema (name : Option Str) (strict : Option Bool) (schema : Fields)
deriving Repr

/-- The `filters` of a request. -/
structure FilterOptions where
  fileIds : Option (List Rag.FileId)
  pageMin : Option Int
  pageMax : Option Int
  needsReview : Option Bool
  fields : Option (List (String × String))
deriving DecidableEq, Repr

structure AdaptaOptions where
  topK : Option Nat
  condense : Option Bool
  filters : Option FilterOptions
deriving DecidableEq, Repr

structure ChatCompletionRequest where
  model : String
  messages : List Turn
  temperature : Option Rat
  maxTokens : Option Int
  topP : Option Rat
  stream : Bool
  responseFormat : Option ResponseFormat
  adapta : Option AdaptaOptions
deriving Repr

/-! ## The content of a message -/

/-- `" ".join`. -/
def joinSpace (l : List Str) : Str := (l.intersperse (str " ")).flatten

def ContentPart.text? : ContentPart → Option Str
  | .text s => some s
  | .imageUrl _ => none

/-- `flatten_text`. -/
def flattenText : Content → Str
  | .text s => s
  | .parts l => strip (joinSpace (l.filterMap ContentPart.text?))

def Content.hasImage : Content → Bool
  | .text _ => false
  | .parts l => l.any fun
    | .imageUrl _ => true
    | .text _ => false

/-- `has_image_parts`. -/
def hasImageParts (messages : List Turn) : Bool := messages.any fun m ↦ m.content.hasImage

/-- The characters of a message that the limit counts. -/
def Content.chars : Content → Nat
  | .text s => s.length
  | .parts l => ((l.filterMap ContentPart.text?).map List.length).sum

def totalChars (messages : List Turn) : Nat := (messages.map fun m ↦ m.content.chars).sum

/-! ## Options -/

/-- JSON mode: `text` means unconstrained. -/
def formatOf : Option ResponseFormat → Option ResponseFormat
  | some .text => none
  | f => f

/-- The filters passed on: none if no field is set. -/
def ragFilters (f : FilterOptions) : Option Rag.RetrievalFilters :=
  if f.fileIds.isSome || f.pageMin.isSome || f.pageMax.isSome || f.needsReview.isSome ||
      f.fields.isSome then
    some
      { fileIds := f.fileIds.filter (· ≠ [])
        pageMin := f.pageMin
        pageMax := f.pageMax
        needsReview := f.needsReview
        fields := f.fields.filter (· ≠ []) }
  else none

end Adapta.Chat
