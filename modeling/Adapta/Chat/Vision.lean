import Adapta.Chat.Agree

/-!
# Requests with images

The part of `chat` for a request with image parts, in `adapta/services/chat.py`: the base model
has to accept images, each image has to be a data URL that decodes within the limits, and
`_chat_vision` answers through the model's chat handler.  Nothing is retrieved for such a request.

The decoder of base64, the reader of image files and the chat handler are parameters
(`VisionEnv`).
-/

namespace Adapta.Chat

open Api Lib Rag
open Keys (EndpointId)

/-- What the chat handler is given. -/
structure VisionRequest where
  messages : List Turn
  modelName : String
  adapterPath : Option String
  temperature : Rat
  topP : Rat
  maxTokens : Int
  responseFormat : Option ResponseFormat

/-- What the chat handler returns. -/
structure HandlerResult where
  content : Option Str
  finishReason : Option FinishReason
  promptTokens : Option Nat
  completionTokens : Option Nat

/-- What is called for a request with images. -/
structure VisionEnv where
  maxImagesPerRequest : Nat
  maxImageMb : Nat
  maxImageSidePx : Nat
  /-- `_base_modality`. -/
  baseModality : String → String
  /-- `base64.b64decode`, with `validate=True`. -/
  b64decode : Str → Option (List UInt8)
  /-- The width and the height of an image that can be opened. -/
  imageSize : List UInt8 → Option (Nat × Nat)
  /-- The model can be loaded. -/
  loads : String → Option String → Bool
  createChatCompletion : VisionRequest → Except DomainError HandlerResult

/-! ## Images -/

def ContentPart.url? : ContentPart → Option Str
  | .text _ => none
  | .imageUrl url => some url

/-- The images of a message. -/
def Content.urls : Content → List Str
  | .text _ => []
  | .parts l => l.filterMap ContentPart.url?

def allowedImageMedia : List String := ["image/jpeg", "image/jpg", "image/png", "image/webp"]

/-- `_estimate_image_tokens`. -/
def estimateImageTokens (width height : Nat) : Nat := (width + 55) / 56 * ((height + 55) / 56) + 8

section

variable (E : Env) (V : VisionEnv)

/-- `_decode_data_url`. -/
def decodeDataUrl (url : Str) : Except DomainError (List UInt8) :=
  if ¬str "data:" <+: url then
    .error (.invalidRequest
      ("Image parts must be inline data URLs (data:image/...;base64,...) — " ++
        "remote image URLs are not fetched."))
  else
    let header := url.takeWhile (· ≠ .char ',')
    let media := E.lower ((header.drop 5).takeWhile (· ≠ .char ';'))
    if header = url ∨ ¬str ";base64" <:+: header ∨ media ∉ allowedImageMedia.map str then
      .error (.invalidRequest ("Unsupported image data URL. Use data:<media>;base64,<payload> " ++
        "with media one of: " ++ String.intercalate ", " allowedImageMedia ++ "."))
    else
      match V.b64decode (url.drop (header.length + 1)) with
      | none => .error (.invalidRequest "Image data URL payload is not valid base64.")
      | some raw =>
          if V.maxImageMb * 1024 * 1024 < raw.length then
            .error (.invalidRequest ("Image exceeds the " ++ toString V.maxImageMb ++
              " MB per-image limit."))
          else .ok raw

/-- One image: the images so far and the tokens they cost. -/
def addImage (acc : Nat × Nat) (url : Str) : Except DomainError (Nat × Nat) :=
  if V.maxImagesPerRequest < acc.1 + 1 then
    .error (.invalidRequest ("Too many images: at most " ++ toString V.maxImagesPerRequest ++
      " per request."))
  else do
    let raw ← decodeDataUrl E V url
    match V.imageSize raw with
    | none => .error (.invalidRequest "Image payload could not be decoded as an image.")
    | some (width, height) =>
        if V.maxImageSidePx < max width height then
          .error (.invalidRequest ("Image side " ++ toString (max width height) ++
            "px exceeds the " ++ toString V.maxImageSidePx ++ "px limit."))
        else .ok (acc.1 + 1, acc.2 + estimateImageTokens width height)

/-- `validate_image_parts`. -/
def validateImageParts (messages : List Turn) : Except DomainError Nat :=
  ((messages.flatMap fun m ↦ m.content.urls).foldlM (addImage E V) (0, 0)).map Prod.snd

/-! ## The answer -/

/-- `generate_chat`. -/
def generateChat (req : VisionRequest) : Except DomainError InferenceResponse :=
  (V.createChatCompletion req).map fun r ↦
    ⟨strip (r.content.getD []), r.finishReason.getD .stop, r.promptTokens.getD 0,
      r.completionTokens.getD 0⟩

def imagesTooLong (nPrompt imageTokens nCtx : Nat) : String :=
  "Prompt is too long (~" ++ toString nPrompt ++ " tokens including ~" ++ toString imageTokens ++
    " image tokens) for the model's " ++ toString nCtx ++ "-token context window. " ++
    "Use smaller images or shorten your input."

/-- `_chat_vision`. -/
def chatVision (a : ServiceArgs) (imageTokens : Nat) (temperature : Rat) (maxTokens : Int)
    (topP : Rat) : Except DomainError Completion :=
  if V.loads a.modelName a.adapterPath = false then
    .error (.modelNotFound ("Model '" ++ a.modelName ++ "' could not be loaded"))
  else
    let nCtx := E.nCtx a.modelName a.adapterPath
    let nPrompt := E.tokenize (renderChatml none (a.messages.map flatMessage)) + imageTokens
    if nCtx < nPrompt + min minGenReserve maxTokens then
      .error (.invalidRequest (imagesTooLong nPrompt imageTokens nCtx))
    else
      match generateChat V
        { messages := a.messages
          modelName := a.modelName
          adapterPath := a.adapterPath
          temperature := temperature
          topP := topP
          maxTokens := max 1 (min maxTokens (nCtx - nPrompt))
          responseFormat := a.responseFormat } with
      | .error e => .error (asFailure "Inference failed" e)
      | .ok response => .ok
          { content := response.content
            finishReason := response.finishReason
            -- the engine does not count the tokens of the images
            promptTokens := response.promptTokens + imageTokens
            completionTokens := response.completionTokens
            citations := none }

/-- What `chat` does with a request that has image parts. -/
def withImages (a : ServiceArgs) (temperature : Rat) (maxTokens : Int) (topP : Rat) :
    Serve Completion :=
  Serve.lift
    (if V.baseModality a.modelName ≠ "vision" then
      .error (.invalidRequest ("This endpoint's base model is text-only and cannot accept image " ++
        "content. Create the project on a vision base model (e.g. qwen2.5-vl-3b-instruct)."))
    else do
      let imageTokens ← validateImageParts E V a.messages
      chatVision E V a imageTokens temperature maxTokens topP)

end

/-! ## What is answered -/

variable {E : Env} {V : VisionEnv} {a : ServiceArgs}

/-- An answer about images has no citations, and its usage counts them. -/
theorem chatVision_ok {imageTokens : Nat} {temperature topP : Rat} {maxTokens : Int}
    {c : Completion} (h : chatVision E V a imageTokens temperature maxTokens topP = .ok c) :
    c.citations = none ∧ imageTokens ≤ c.promptTokens := by
  simp only [chatVision] at h
  split at h
  · cases h
  · split at h
    · cases h
    · split at h
      · cases h
      · cases h
        exact ⟨rfl, Nat.le_add_left _ _⟩

/-- A request with images is answered without citations, and no backend is handed a prompt. -/
theorem withImages_ok {temperature topP : Rat} {maxTokens : Int} {c : Completion}
    {sent sent' : List InferenceRequest}
    (h : (withImages E V a temperature maxTokens topP).run.run sent = (.ok c, sent')) :
    c.citations = none ∧ sent' = sent := by
  have hsent : sent' = sent := by
    rw [withImages] at h
    generalize (if V.baseModality a.modelName ≠ "vision" then _ else _ :
      Except DomainError Completion) = x at h
    cases x with
    | error e => cases h
    | ok c' =>
        cases h
        rfl
  have hok := Serve.run_lift_ok h
  split at hok
  · cases hok
  · obtain ⟨imageTokens, -, hvision⟩ := bind_eq_ok.mp hok
    exact ⟨(chatVision_ok hvision).1, hsent⟩

/-! ## A picture -/

/-- A PNG image of one pixel. -/
def onePixel : List UInt8 :=
  [137, 80, 78, 71, 13, 10, 26, 10, 0, 0, 0, 13, 73, 72, 68, 82, 0, 0, 0, 1, 0, 0, 0, 1, 8, 0, 0,
    0, 0, 58, 126, 155, 85, 0, 0, 0, 10, 73, 68, 65, 84, 120, 156, 99, 96, 0, 0, 0, 2, 0, 1, 72,
    175, 164, 113, 0, 0, 0, 0, 73, 69, 78, 68, 174, 66, 96, 130]

def onePixelBase64 : Str :=
  str "iVBORw0KGgoAAAANSUhEUgAAAAEAAAABCAAAAAA6fptVAAAACklEQVR4nGNgAAAAAgABSK+kcQAAAABJRU5ErkJggg=="

/-- A vision model that sees a dot. -/
def eyes : VisionEnv where
  maxImagesPerRequest := 4
  maxImageMb := 10
  maxImageSidePx := 8192
  baseModality _ := "vision"
  b64decode s := if s = onePixelBase64 then some onePixel else none
  imageSize raw := if raw = onePixel then some (1, 1) else none
  loads _ _ := true
  createChatCompletion _ := .ok ⟨some (str "A dot."), some .stop, some 9, some 3⟩

/-- The image of one pixel costs nine tokens. -/
example : validateImageParts deskEnv eyes
    [⟨.user, .parts [.imageUrl (str "data:image/png;base64," ++ onePixelBase64)]⟩] = .ok 9 := rfl

end Adapta.Chat
