import Mathlib.Algebra.GroupWithZero.Nat
import Adapta.Adapters.Life
import Adapta.Api.Errors
import Adapta.Api.Upload
import Adapta.Lib.Json

/-!
# Importing an adapter

An upload is a GGUF LoRA or a zip of a PEFT adapter.  `validate_and_store` of
`adapta/services/adapters.py` checks that it is what it claims and places it in the adapter's
directory; on a failure it removes the directory.  Nothing is loaded and nothing is scored.

## What is abstracted

* The directory has four places for files.  That `peft` is a directory of its own does not
  matter.
* What other code makes of bytes is a parameter: the members of a zip, the fields of a GGUF, the
  digest.  A member's stream may have any content of at most the size that its header declares,
  since `ZipExtFile` reads no further, and it may raise at its end.
* The checks of the extracted files are one call each.  A failed call inside of `GGUFReader` or
  `is_zipfile` is no error of its own: the file then counts as unreadable.
-/

namespace Adapta.Adapters.Import

open Lib Effect Api

/-! ## Errors -/

/-- What an `InvalidAdapter` says, with the values that its message shows. -/
inductive Invalid where
  | extension
  | evalDataset (id : String)
  | evalDatasetStatus (status : String)
  | baseUnknown (baseModel : String) (allowedNames : List String)
  | ggufMagic
  | ggufUnreadable
  | ggufField (key expected : String) (got : Option String)
  | ggufArchitecture (expected base : String) (got : Option String)
  | notZip
  | zipPath (found : String)
  | zipMembers (found : List String)
  | zipCorrupt
  | safetensors
  | configTooLarge
  | configNotObject
  | peftType (got : Option Json)
  | baseMismatch (accepted : List String) (base : String) (got : Option Json)

inductive Rejection where
  | invalid (i : Invalid)
  | domain (e : DomainError)
  /-- `zipfile.BadZipFile`. -/
  | badZipFile

abbrev Error := Raised Rejection

def Invalid.error (i : Invalid) : Error := .rejected (.invalid i)

/-! ## What is read -/

/-- A catalog entry, with what the validation reads of it. -/
structure Base extends CatalogEntry where
  architecture : String
  adapterBaseAliases : List String

/-- `resolve`. -/
def resolveBase (catalog : List Base) (baseModel : String) : Option Base :=
  (catalog.reverse.find? (·.name = baseModel)).or
    (catalog.reverse.find? (·.hfRepoId = baseModel))

/-- What ends the stream of a member early. -/
inductive StreamError where
  | badZipFile
  /-- Another exception of the decompression. -/
  | other

def StreamError.error : StreamError → Error
  | .badZipFile => .rejected .badZipFile
  | .other => .call

structure Stream where
  content : Bytes
  /-- What the read at the end raises. -/
  ending : Option StreamError

/-- A member of a zip. -/
structure Member where
  filename : String
  /-- The size that its header declares. -/
  fileSize : Nat
  /-- What opening it gives. -/
  stream : Except StreamError Stream
  /-- `ZipExtFile` stops at the declared size, however much the archive has. -/
  within : ∀ s, stream = .ok s → s.content.length ≤ fileSize

/-- What other code makes of the bytes of a file. -/
structure Readers where
  sha256 : Bytes → String
  /-- `zipfile.is_zipfile`. -/
  isZip : Bytes → Bool
  /-- The members that `ZipFile` finds, or `none` if it raises `BadZipFile`. -/
  members : Bytes → Option (List Member)
  /-- The fields that `GGUFReader` finds, those whose contents are strings, or `none` if it
  raises. -/
  gguf : Bytes → Option (String → Option String)
  /-- `json.loads` decodes bytes by their first ones. -/
  decode : Bytes → Option Str
  canon : FloatText → FloatText

/-- The directory of an adapter. -/
structure AdapterDir where
  upload : Option Bytes
  gguf : Option Bytes
  config : Option Bytes
  weights : Option Bytes
deriving DecidableEq

def AdapterDir.empty : AdapterDir := ⟨none, none, none, none⟩

/-- The directory as `validate_and_store` finds it. -/
def AdapterDir.ofUpload (upload : Bytes) : AdapterDir := ⟨some upload, none, none, none⟩

/-- `adapters_dir/{id}`, if it exists. -/
abbrev Dir := Option AdapterDir

/-- `PEFT_MEMBERS`. -/
inductive PeftFile where
  | config
  | weights
deriving DecidableEq, Repr

def PeftFile.filename : PeftFile → String
  | .config => "adapter_config.json"
  | .weights => "adapter_model.safetensors"

namespace Dir

variable (d : Dir)

/-- `mkdir(parents=True, exist_ok=True)`. -/
def make : Dir := some (d.getD .empty)

/-- The bytes of the upload. -/
def uploadBytes : Bytes := (d.bind AdapterDir.upload).getD []

def getUpload : Option Bytes := d.bind AdapterDir.upload

def setUpload (x : Option Bytes) : Dir := d.map fun a ↦ { a with upload := x }

def get : PeftFile → Option Bytes
  | .config => d.bind AdapterDir.config
  | .weights => d.bind AdapterDir.weights

def set (f : PeftFile) (x : Option Bytes) : Dir :=
  d.map fun a ↦
    match f with
    | .config => { a with config := x }
    | .weights => { a with weights := x }

/-- `shutil.move(upload, gguf_path)`. -/
def moveToGguf : Dir := d.map fun a ↦ { a with upload := none, gguf := a.upload }

end Dir

/-- The calls for one member of the zip. -/
inductive MemberCall where
  | openMember
  | open
  | read (i : Nat)
  | write (i : Nat)
  | close
deriving DecidableEq, Repr

/-- The calls of `validate_and_store`. -/
inductive StoreCall where
  | stat
  | hash
  | magic
  | gguf
  | mkdir
  | move
  | isZip
  | mkdirPeft
  | openZip
  | member (f : PeftFile) (c : MemberCall)
  | checkWeights
  | checkConfig
  | unlink
  | rmtree
deriving DecidableEq, Repr

abbrev Step := Effect Error Dir

/-- A path below the directory of the adapter. -/
inductive StoredPath where
  | gguf
  | peft
deriving DecidableEq, Repr

structure StoredAdapter where
  format : AdapterFormat
  baseModel : String
  sha256 : String
  sizeBytes : Nat
  peftDir : Option StoredPath
  ggufPath : Option StoredPath

/-! ## GGUF -/

def ggufMagic : Bytes := [71, 71, 85, 70]

/-- The fields that the code names. -/
def ggufFields : List (String × String) :=
  [("general.type", "adapter"), ("adapter.type", "lora")]

/-- The checks of `validate_gguf` on the fields. -/
def checkGgufFields (entry : Base) (fields : String → Option String) : Except Error Unit :=
  match ggufFields.find? fun x ↦ fields x.1 ≠ some x.2 with
  | some (key, expected) => .error (Invalid.ggufField key expected (fields key)).error
  | none =>
      if fields "general.architecture" = some entry.architecture then .ok ()
      else .error (Invalid.ggufArchitecture entry.architecture entry.name
        (fields "general.architecture")).error

/-- The checks of `validate_gguf`; `readable` if no call of the reader fails. -/
def checkGguf (readers : Readers) (entry : Base) (readable : Bool) (b : Bytes) :
    Except Error Unit :=
  if b.take 4 = ggufMagic then
    match if readable then readers.gguf b else none with
    | none => .error Invalid.ggufUnreadable.error
    | some fields => checkGgufFields entry fields
  else .error Invalid.ggufMagic.error

/-! ## PEFT -/

def zipMagic : Bytes := [80, 75, 3, 4]

def configMaxBytes : Nat := 1024 * 1024

def safetensorsHeaderMax : Nat := 100 * 1024 * 1024

/-- A name that is not at the top level of the zip. -/
def nested (n : String) : Bool :=
  n.toList.getLast? = some '/' || n.toList.head? = some '/' || n.toList.contains '\\' ||
    (n.toList.splitOn '/').contains ['.', '.'] || n.toList.contains '/'

def peftMembers : List String := [PeftFile.config.filename, PeftFile.weights.filename]

def expandsBeyond (maxMb : Nat) : Error :=
  .payloadTooLarge s!"Adapter expands beyond the {maxMb} MB limit"

/-- `_check_zip_members`. -/
def checkZipMembers (infos : List Member) (maxMb : Nat) : Except Error Unit :=
  let names := infos.map Member.filename
  match names.find? nested with
  | some n => .error (Invalid.zipPath n).error
  | none =>
      if names.Nodup ∧ (∀ n ∈ names, n ∈ peftMembers) ∧ ∀ n ∈ peftMembers, n ∈ names then
        if maxMb * mebibyte < (infos.map Member.fileSize).sum then .error (expandsBeyond maxMb)
        else .ok ()
      else .error (Invalid.zipMembers names).error

/-- `zf.open(name)`; there is no `KeyError` once the names are checked. -/
def openMember (infos : List Member) (f : PeftFile) : Except Error Stream :=
  match infos.find? (·.filename = f.filename) with
  | none => .error .call
  | some m => m.stream.mapError StreamError.error

/-- `_extract_member`, on the file at its destination. -/
def extractMember (calls : MemberCall → Outcome) (maxMb : Nat) (src : Except Error Stream) :
    Effect Error (Option Bytes) Nat := do
  ask (calls .openMember) .call
  let src ← lift src
  call (calls .open) .call fun _ ↦ some []
  closing (calls .close) .call
    (copyCapped (fun i ↦ calls (.read i)) (fun i ↦ calls (.write i)) (maxMb * mebibyte)
      (expandsBeyond maxMb) (src.ending.map StreamError.error) 0 0 (slices mebibyte src.content))

/-- The little-endian number. -/
def littleEndian (b : Bytes) : Nat := b.foldr (fun x n ↦ x.toNat + 256 * n) 0

/-- `_check_safetensors`. -/
def checkSafetensors (readers : Readers) (b : Bytes) : Except Error Unit :=
  let n := littleEndian (b.take 8)
  let header := (readers.decode ((b.drop 8).take n)).bind (loads readers.canon)
  if 8 ≤ b.length ∧ 0 < n ∧ n ≤ safetensorsHeaderMax ∧ n ≤ b.length - 8 then
    match header with
    | some (.obj _) => .ok ()
    | _ => .error Invalid.safetensors.error
  else .error Invalid.safetensors.error

/-- `read_text(encoding="utf-8")`; that it translates line ends makes no difference to JSON. -/
def readText (b : Bytes) : Option Str :=
  (String.fromUTF8? ⟨b.toArray⟩).map fun s ↦ s.toList.map .char

/-- The repositories that a PEFT adapter's base may be. -/
def acceptedBases (entry : Base) : List String := entry.hfRepoId :: entry.adapterBaseAliases

/-- `_check_peft_config`. -/
def checkPeftConfig (readers : Readers) (entry : Base) (b : Bytes) : Except Error Unit :=
  if configMaxBytes < b.length then .error Invalid.configTooLarge.error
  else
    match (readText b).bind (loads readers.canon) with
    | some (.obj cfg) =>
        match getField cfg (str "peft_type") with
        | some (.str t) =>
            if t ≠ str "LORA" then .error (Invalid.peftType (some (.str t))).error
            else
              match getField cfg (str "base_model_name_or_path") with
              | some (.str base) =>
                  if base ∈ (acceptedBases entry).map str then .ok ()
                  else .error (Invalid.baseMismatch (acceptedBases entry) entry.name
                    (some (.str base))).error
              | got => .error (Invalid.baseMismatch (acceptedBases entry) entry.name got).error
        | got => .error (Invalid.peftType got).error
    | _ => .error Invalid.configNotObject.error

section Store

variable (calls : StoreCall → Outcome) (readers : Readers) (maxMb : Nat) (entry : Base)

/-- The extraction of the member `f` into the directory. -/
def extract (f : PeftFile) (infos : List Member) : Step Nat :=
  zoom (Dir.get · f) (fun x d ↦ Dir.set d f x)
    (extractMember (fun c ↦ calls (.member f c)) maxMb (openMember infos f))

/-- What `_store_peft` does with the open zip.  `sorted(PEFT_MEMBERS)` has the config first. -/
def extractAll (upload : Bytes) : Step Nat := do
  ask (calls .openZip) .call
  let infos ← lift ((readers.members upload).elim (.error (.rejected .badZipFile)) .ok)
  lift (checkZipMembers infos maxMb)
  let _ ← extract calls maxMb .config infos
  extract calls maxMb .weights infos

/-- The checks of the extracted files. -/
def checkExtracted : Step Unit := do
  ask (calls .checkWeights) .call
  let weights ← gets fun d ↦ (Dir.get d .weights).getD []
  lift (checkSafetensors readers weights)
  ask (calls .checkConfig) .call
  let config ← gets fun d ↦ (Dir.get d .config).getD []
  lift (checkPeftConfig readers entry config)

/-- A `BadZipFile` is an `InvalidAdapter`. -/
def rejectCorrupt {α : Type} : Error → Step α
  | .rejected .badZipFile => raise Invalid.zipCorrupt.error
  | e => raise e

/-- `_store_peft`. -/
def storePeft : Step Unit := do
  ask (calls .magic) .call
  let upload ← gets Dir.uploadBytes
  if upload.take 4 = zipMagic ∧ calls .isZip = .ok ∧ readers.isZip upload then do
    call (calls .mkdirPeft) .call Dir.make
    let _ ← tryCatch (extractAll calls readers maxMb upload) rejectCorrupt
    checkExtracted calls readers entry
  else raise Invalid.notZip.error

/-- `validate_gguf`. -/
def validateGguf : Step Unit := do
  ask (calls .magic) .call
  let upload ← gets Dir.uploadBytes
  lift (checkGguf readers entry (calls .gguf = .ok) upload)

/-- `format_for_filename`. -/
def formatForFilename (filename : String) : Except Error AdapterFormat :=
  let lowered := filename.toList.map Char.toLower
  if ".gguf".toList.isSuffixOf lowered then .ok .gguf
  else if ".zip".toList.isSuffixOf lowered then .ok .peft
  else .error Invalid.extension.error

/-- The `try` of `validate_and_store`. -/
def storeUpload : AdapterFormat → Step StoredAdapter
  | .gguf => do
      ask (calls .stat) .call
      let upload ← gets Dir.uploadBytes
      ask (calls .hash) .call
      validateGguf calls readers entry
      call (calls .mkdir) .call Dir.make
      call (calls .move) .call Dir.moveToGguf
      pure ⟨.gguf, entry.name, readers.sha256 upload, upload.length, none, some .gguf⟩
  | .peft => do
      ask (calls .stat) .call
      let upload ← gets Dir.uploadBytes
      ask (calls .hash) .call
      storePeft calls readers maxMb entry
      call (calls .unlink) .call fun d ↦ Dir.setUpload d none
      pure ⟨.peft, entry.name, readers.sha256 upload, upload.length, some .peft, none⟩

/-- `validate_and_store`. -/
def validateAndStore (catalog : List Base) (filename baseModel : String) :
    Step StoredAdapter := do
  let fmt ← lift (formatForFilename filename)
  match resolveBase catalog baseModel with
  | none => raise (Invalid.baseUnknown baseModel (catalog.map (·.name))).error
  | some entry =>
      onRaise (storeUpload calls readers maxMb entry fmt) (quiet (calls .rmtree) fun _ ↦ none)

end Store

/-! ## Extraction -/

/-- How an extraction fails if no call does, with what is at the destination then. -/
inductive Cut (maxMb : Nat) (s : Option Bytes) : Except Error Stream → Option Bytes → Prop
  | unopened (e : Error) : Cut maxMb s (.error e) s
  | beyond (src : Stream) (x : Bytes) : maxMb * mebibyte < src.content.length →
      x.length = maxMb * mebibyte → Cut maxMb s (.ok src) (some x)
  | broken (src : Stream) : src.content.length ≤ maxMb * mebibyte → src.ending ≠ none →
      Cut maxMb s (.ok src) (some src.content)

/-- The member can be extracted. -/
def Extractable (maxMb : Nat) (src : Except Error Stream) (content : Bytes) : Prop :=
  ∃ st, src = .ok st ∧ st.content = content ∧ st.content.length ≤ maxMb * mebibyte ∧
    st.ending = none

theorem not_extractable_of_cut {maxMb : Nat} {s x : Option Bytes} {src : Except Error Stream}
    (h : Cut maxMb s src x) (content : Bytes) : ¬ Extractable maxMb src content := by
  rintro ⟨st, hst, -, hle, hend⟩
  cases h with
  | unopened e => cases hst
  | beyond src x hlt hx =>
      cases hst
      omega
  | broken src hle' hend' =>
      cases hst
      exact hend' hend

theorem wp_extractMember {calls : MemberCall → Outcome} {maxMb : Nat} {src : Except Error Stream}
    {Q : Nat → Option Bytes → Prop} {E : Error → Option Bytes → Prop} {s : Option Bytes}
    (hok : ∀ content, Extractable maxMb src content → Q content.length (some content))
    (hraise : ∀ e x, ((∀ c, calls c = .ok) → Cut maxMb s src x) → E e x) :
    wp (extractMember calls maxMb src) Q E s := by
  simp only [extractMember, wp_bind, wp_ask]
  have hfail : ∀ c, calls c ≠ .ok → ∀ e x, E e x :=
    fun c hc e x ↦ hraise e x fun h ↦ absurd (h c) hc
  refine ⟨fun _ ↦ ?_, fun h ↦ hfail _ h _ _⟩
  cases src with
  | error e => exact hraise e s fun _ ↦ .unopened e
  | ok src =>
  rw [wp_lift_ok, wp_call]
  have hne : ∀ {c o}, calls c = o → o ≠ .ok → calls c ≠ .ok := fun h ho ↦ h ▸ ho
  refine ⟨fun _ ↦ ?_, fun h ↦ hfail _ (hne h (by decide)) _ _,
    fun h ↦ hfail _ (hne h (by decide)) _ _⟩
  rw [wp_closing]
  have hflat : (slices mebibyte src.content).flatten = src.content := flatten_slices (by decide)
  refine wp_copyCapped (Nat.zero_le _) ?_ ?_ ?_ ?_
  · intro hbreaks x
    have hfail : ∀ e, E e (some x) := by
      rcases hbreaks with ⟨j, -, -, hread⟩ | ⟨j, -, -, hwrite⟩
      · exact fun e ↦ hfail _ hread e _
      · exact fun e ↦ hfail _ hwrite e _
    exact ⟨fun _ ↦ hfail _, fun _ ↦ hfail _⟩
  · intro hcalm j hj hle hlt
    refine ⟨fun _ ↦ hraise _ _ fun _ ↦ ?_, fun h ↦ hfail _ h _ _⟩
    rw [Nat.zero_add] at hle hlt
    rw [List.nil_append]
    refine .beyond src _ ?_ (length_flatten_take_slices (by decide) hle hlt)
    rw [flatten_take_slices (by decide), List.length_take] at hlt
    omega
  · intro hcalm hle e he
    refine ⟨fun _ ↦ hraise _ _ fun _ ↦ ?_, fun h ↦ hfail _ h _ _⟩
    rw [hflat, Nat.zero_add] at hle
    rw [hflat, List.nil_append]
    refine .broken src hle ?_
    rintro hnone
    rw [hnone] at he
    cases he
  · intro hcalm hle hend
    rw [hflat, Nat.zero_add] at hle
    rw [hflat, Nat.zero_add, List.nil_append]
    refine ⟨fun _ ↦ hok _ ⟨src, rfl, rfl, hle, ?_⟩, fun h ↦ hfail _ h _ _⟩
    exact Option.map_eq_none_iff.mp hend

section Store

variable {calls : StoreCall → Outcome} {readers : Readers} {maxMb : Nat} {entry : Base}
  {upload : Bytes}

/-- The directory while the members are extracted. -/
def expanding (upload : Bytes) (config weights : Option Bytes) : Dir :=
  some { upload := some upload, gguf := none, config := config, weights := weights }

/-- The zip is extracted to these contents. -/
structure Extracts (readers : Readers) (maxMb : Nat) (upload config weights : Bytes) : Prop where
  magic : upload.take 4 = zipMagic
  isZip : readers.isZip upload = true
  members : ∃ infos, readers.members upload = some infos ∧ checkZipMembers infos maxMb = .ok () ∧
    Extractable maxMb (openMember infos .config) config ∧
    Extractable maxMb (openMember infos .weights) weights

/-- And they pass their checks. -/
structure PeftContents (readers : Readers) (maxMb : Nat) (entry : Base)
    (upload config weights : Bytes) : Prop
    extends Extracts readers maxMb upload config weights where
  safetensors : checkSafetensors readers weights = .ok ()
  peftConfig : checkPeftConfig readers entry config = .ok ()

/-- How `_store_peft` raises if no call fails, with what it has extracted then. -/
inductive Refused (readers : Readers) (maxMb : Nat) (entry : Base) (upload : Bytes) :
    Option Bytes → Option Bytes → Prop
  | notZip : ¬ (upload.take 4 = zipMagic ∧ readers.isZip upload = true) →
      Refused readers maxMb entry upload none none
  | corrupt : readers.members upload = none → Refused readers maxMb entry upload none none
  | members (infos : List Member) (e : Error) : readers.members upload = some infos →
      checkZipMembers infos maxMb = .error e → Refused readers maxMb entry upload none none
  | config (infos : List Member) (x : Option Bytes) : readers.members upload = some infos →
      checkZipMembers infos maxMb = .ok () → Cut maxMb none (openMember infos .config) x →
      Refused readers maxMb entry upload x none
  | weights (infos : List Member) (config : Bytes) (x : Option Bytes) :
      upload.take 4 = zipMagic → readers.isZip upload = true →
      readers.members upload = some infos → checkZipMembers infos maxMb = .ok () →
      Extractable maxMb (openMember infos .config) config →
      Cut maxMb none (openMember infos .weights) x →
      Refused readers maxMb entry upload (some config) x
  | unchecked (config weights : Bytes) : Extracts readers maxMb upload config weights →
      ¬ (checkSafetensors readers weights = .ok () ∧
        checkPeftConfig readers entry config = .ok ()) →
      Refused readers maxMb entry upload (some config) (some weights)

theorem wp_rejectCorrupt {α : Type} {Q : α → Dir → Prop} {E : Error → Dir → Prop} {d : Dir}
    (h : ∀ e, E e d) (e : Error) : wp (rejectCorrupt e) Q E d := by
  rw [rejectCorrupt.eq_def]
  split
  · exact h _
  · exact h _

theorem wp_extractAll (entry : Base) {Q : Nat → Dir → Prop} {E : Error → Dir → Prop}
    (hmagic : upload.take 4 = zipMagic) (hisZip : readers.isZip upload = true)
    (hok : ∀ config weights, Extracts readers maxMb upload config weights →
      ∀ n, Q n (expanding upload (some config) (some weights)))
    (hraise : ∀ e x y, ((∀ c, calls c = .ok) → Refused readers maxMb entry upload x y) →
      E e (expanding upload x y)) :
    wp (extractAll calls readers maxMb upload) Q E (expanding upload none none) := by
  simp only [extractAll, wp_bind, wp_ask]
  refine ⟨fun _ ↦ ?_, fun h ↦ hraise _ _ _ fun hall ↦ absurd (hall _) h⟩
  cases hinfos : readers.members upload with
  | none => exact hraise _ _ _ fun _ ↦ .corrupt hinfos
  | some infos =>
  rw [Option.elim_some, wp_lift_ok]
  cases hcheck : checkZipMembers infos maxMb with
  | error e => exact hraise _ _ _ fun _ ↦ .members infos e hinfos hcheck
  | ok u =>
  rw [wp_lift_ok, extract, wp_zoom]
  refine wp_extractMember (fun config hconfig ↦ ?_) fun e x hx ↦ ?_
  · rw [extract, wp_zoom]
    refine wp_extractMember (fun weights hweights ↦ ?_) fun e x hx ↦ ?_
    · exact hok config weights ⟨hmagic, hisZip, infos, hinfos, hcheck, hconfig, hweights⟩ _
    · exact hraise e _ _ fun hall ↦
        .weights infos config x hmagic hisZip hinfos hcheck hconfig (hx fun _ ↦ hall _)
  · exact hraise e _ _ fun hall ↦ .config infos x hinfos hcheck (hx fun _ ↦ hall _)

theorem wp_checkExtracted {Q : Unit → Dir → Prop} {E : Error → Dir → Prop}
    {config weights : Bytes}
    (hok : checkSafetensors readers weights = .ok () →
      checkPeftConfig readers entry config = .ok () →
      Q () (expanding upload (some config) (some weights)))
    (hraise : ∀ e, ((∀ c, calls c = .ok) → ¬ (checkSafetensors readers weights = .ok () ∧
        checkPeftConfig readers entry config = .ok ())) →
      E e (expanding upload (some config) (some weights))) :
    wp (checkExtracted calls readers entry) Q E
      (expanding upload (some config) (some weights)) := by
  have hconfig : (Dir.get (expanding upload (some config) (some weights)) .config).getD [] =
      config := rfl
  have hweights : (Dir.get (expanding upload (some config) (some weights)) .weights).getD [] =
      weights := rfl
  simp only [checkExtracted, wp_bind, wp_ask, wp_gets, hweights]
  refine ⟨fun _ ↦ ?_, fun h ↦ hraise _ fun hall ↦ absurd (hall _) h⟩
  cases hs : checkSafetensors readers weights with
  | error e =>
      refine hraise e fun _ h ↦ ?_
      rw [hs] at h
      cases h.1
  | ok u =>
  refine ⟨fun _ ↦ ?_, fun h ↦ hraise _ fun hall ↦ absurd (hall _) h⟩
  rw [hconfig]
  cases hc : checkPeftConfig readers entry config with
  | error e =>
      refine hraise e fun _ h ↦ ?_
      rw [hc] at h
      cases h.2
  | ok u => exact hok hs hc

/-- How `_store_peft` ends. -/
theorem wp_storePeft {Q : Unit → Dir → Prop} {E : Error → Dir → Prop}
    (hok : ∀ config weights, PeftContents readers maxMb entry upload config weights →
      Q () (expanding upload (some config) (some weights)))
    (hraise : ∀ e x y, ((∀ c, calls c = .ok) → Refused readers maxMb entry upload x y) →
      E e (expanding upload x y)) :
    wp (storePeft calls readers maxMb entry) Q E (some (.ofUpload upload)) := by
  have hupload : Dir.uploadBytes (some (.ofUpload upload)) = upload := rfl
  have hmake : Dir.make (some (.ofUpload upload)) = expanding upload none none := rfl
  have hfail : ∀ c, calls c ≠ .ok → ∀ e x y, E e (expanding upload x y) :=
    fun c hc e x y ↦ hraise e x y fun hall ↦ absurd (hall c) hc
  simp only [storePeft, wp_bind, wp_ask, wp_gets, hupload]
  refine ⟨fun _ ↦ ?_, fun h ↦ hfail _ h _ none none⟩
  split
  · next hzip =>
      have hne : ∀ {o}, calls .mkdirPeft = o → o ≠ .ok → calls .mkdirPeft ≠ .ok :=
        fun h ho ↦ h ▸ ho
      rw [wp_bind, wp_call]
      refine ⟨fun _ ↦ ?_, fun h ↦ hfail _ (hne h (by decide)) _ none none,
        fun h ↦ hfail _ (hne h (by decide)) _ none none⟩
      rw [wp_bind, wp_tryCatch, hmake]
      refine wp_extractAll entry hzip.1 hzip.2.2 (fun config weights hext _ ↦ ?_)
        fun e x y h ↦ ?_
      · refine wp_checkExtracted (fun hs hc ↦ hok config weights ⟨hext, hs, hc⟩) fun e h ↦ ?_
        exact hraise e _ _ fun hall ↦ .unchecked config weights hext (h hall)
      · exact wp_rejectCorrupt (fun e ↦ hraise e x y h) e
  · next hzip =>
      refine hraise _ none none fun hall ↦ .notZip fun h ↦ hzip ⟨h.1, hall _, h.2⟩

/-- What the row will say of the stored upload. -/
def storedOf (readers : Readers) (entry : Base) (upload : Bytes) : AdapterFormat → StoredAdapter
  | .gguf => ⟨.gguf, entry.name, readers.sha256 upload, upload.length, none, some .gguf⟩
  | .peft => ⟨.peft, entry.name, readers.sha256 upload, upload.length, some .peft, none⟩

/-- The upload passes its checks, and the directory then holds its files. -/
inductive Stores (readers : Readers) (maxMb : Nat) (entry : Base) (upload : Bytes) :
    AdapterFormat → Dir → Prop
  | gguf : checkGguf readers entry true upload = .ok () →
      Stores readers maxMb entry upload .gguf (some ⟨none, some upload, none, none⟩)
  | peft (config weights : Bytes) : PeftContents readers maxMb entry upload config weights →
      Stores readers maxMb entry upload .peft (some ⟨none, none, some config, some weights⟩)

theorem not_peftContents_of_refused {x y : Option Bytes}
    (h : Refused readers maxMb entry upload x y) (config weights : Bytes) :
    ¬ PeftContents readers maxMb entry upload config weights := by
  intro hp
  obtain ⟨infos, hinfos, hcheck, hconfig, hweights⟩ := hp.members
  cases h with
  | notZip hzip => exact hzip ⟨hp.magic, hp.isZip⟩
  | corrupt hnone =>
      rw [hnone] at hinfos
      cases hinfos
  | members infos' e hinfos' he =>
      rw [hinfos] at hinfos'
      cases hinfos'
      rw [he] at hcheck
      cases hcheck
  | config infos' x hinfos' _ hcut =>
      rw [hinfos] at hinfos'
      cases hinfos'
      exact not_extractable_of_cut hcut _ hconfig
  | weights infos' _ x _ _ hinfos' _ _ hcut =>
      rw [hinfos] at hinfos'
      cases hinfos'
      exact not_extractable_of_cut hcut _ hweights
  | unchecked config' weights' hext hbad =>
      obtain ⟨infos', hinfos', -, ⟨c', hc', rfl, -, -⟩, w', hw', rfl, -, -⟩ := hext.members
      rw [hinfos] at hinfos'
      cases hinfos'
      obtain ⟨c, hc, rfl, -, -⟩ := hconfig
      obtain ⟨w, hw, rfl, -, -⟩ := hweights
      rw [hc] at hc'
      cases hc'
      rw [hw] at hw'
      cases hw'
      exact hbad ⟨hp.safetensors, hp.peftConfig⟩

/-- Nothing is stored if the reader fails. -/
theorem checkGguf_unreadable (readers : Readers) (entry : Base) (b : Bytes) :
    ∃ e, checkGguf readers entry false b = .error e := by
  rw [checkGguf]
  split
  · exact ⟨_, rfl⟩
  · exact ⟨_, rfl⟩

/-- How the `try` of `validate_and_store` ends. -/
theorem wp_storeUpload {fmt : AdapterFormat} {Q : StoredAdapter → Dir → Prop}
    {E : Error → Dir → Prop}
    (hok : ∀ d, Stores readers maxMb entry upload fmt d → Q (storedOf readers entry upload fmt) d)
    (hraise : ∀ e d, ((∀ c, calls c = .ok) → ∀ d, ¬ Stores readers maxMb entry upload fmt d) →
      E e d) :
    wp (storeUpload calls readers maxMb entry fmt) Q E (some (.ofUpload upload)) := by
  have hupload : Dir.uploadBytes (some (.ofUpload upload)) = upload := rfl
  have hfail : ∀ {c}, calls c ≠ .ok → ∀ e d, E e d :=
    fun hc e d ↦ hraise e d fun hall ↦ absurd (hall _) hc
  have hfail' : ∀ {c o}, calls c = o → o ≠ .ok → ∀ e d, E e d :=
    fun h ho ↦ hfail (h.symm ▸ ho)
  cases fmt with
  | gguf =>
      simp only [storeUpload, validateGguf, wp_bind, wp_ask, wp_gets, hupload]
      refine ⟨fun _ ↦ ⟨fun _ ↦ ⟨fun _ ↦ ?_, fun h ↦ hfail h _ _⟩, fun h ↦ hfail h _ _⟩,
        fun h ↦ hfail h _ _⟩
      by_cases hread : calls .gguf = .ok
      · rw [hread, decide_eq_true rfl]
        cases hcheck : checkGguf readers entry true upload with
        | error e =>
            refine hraise e _ fun _ d hd ↦ ?_
            cases hd with
            | gguf h =>
                rw [hcheck] at h
                cases h
        | ok u =>
            simp only [wp_lift_ok, wp_call, wp_pure]
            refine ⟨fun _ ↦ ⟨fun _ ↦ hok _ (.gguf hcheck), fun h ↦ hfail' h (by decide) _ _,
              fun h ↦ hfail' h (by decide) _ _⟩, fun h ↦ hfail' h (by decide) _ _,
              fun h ↦ hfail' h (by decide) _ _⟩
      · rw [decide_eq_false hread]
        obtain ⟨e, he⟩ := checkGguf_unreadable readers entry upload
        rw [he]
        exact hfail hread e _
  | peft =>
      simp only [storeUpload, wp_bind, wp_ask, wp_gets, hupload]
      refine ⟨fun _ ↦ ⟨fun _ ↦ ?_, fun h ↦ hfail h _ _⟩, fun h ↦ hfail h _ _⟩
      refine wp_storePeft (fun config weights hp ↦ ?_) fun e x y h ↦ ?_
      · simp only [wp_call, wp_pure]
        exact ⟨fun _ ↦ hok _ (.peft config weights hp), fun h ↦ hfail' h (by decide) _ _,
          fun h ↦ hfail' h (by decide) _ _⟩
      · refine hraise e _ fun hall d hd ↦ ?_
        cases hd with
        | peft config weights hp => exact not_peftContents_of_refused (h hall) config weights hp

/-- What `validate_and_store` stores, if it returns. -/
inductive Accepts (readers : Readers) (maxMb : Nat) (catalog : List Base)
    (filename baseModel : String) (upload : Bytes) : StoredAdapter → Dir → Prop
  | intro (fmt : AdapterFormat) (entry : Base) (d : Dir) : formatForFilename filename = .ok fmt →
      resolveBase catalog baseModel = some entry → Stores readers maxMb entry upload fmt d →
      Accepts readers maxMb catalog filename baseModel upload (storedOf readers entry upload fmt) d

/-- How `validate_and_store` ends.  It removes the directory itself, unless the base is none of
the catalog. -/
theorem wp_validateAndStore {catalog : List Base} {filename baseModel : String}
    {fmt : AdapterFormat} (hfmt : formatForFilename filename = .ok fmt)
    {Q : StoredAdapter → Dir → Prop} {E : Error → Dir → Prop}
    (hok : ∀ a d, Accepts readers maxMb catalog filename baseModel upload a d → Q a d)
    (hunknown : resolveBase catalog baseModel = none → ∀ e, E e (some (.ofUpload upload)))
    (hraise : resolveBase catalog baseModel ≠ none → ∀ e d,
      ((∀ c, calls c = .ok) →
        ∀ a d, ¬ Accepts readers maxMb catalog filename baseModel upload a d) →
      (calls .rmtree ≠ .fails → d = none) → E e d) :
    wp (validateAndStore calls readers maxMb catalog filename baseModel) Q E
      (some (.ofUpload upload)) := by
  rw [validateAndStore, wp_bind, hfmt, wp_lift_ok]
  cases hbase : resolveBase catalog baseModel with
  | none => exact hunknown hbase _
  | some entry =>
      have hsome : resolveBase catalog baseModel ≠ none := by
        rw [hbase]
        exact Option.some_ne_none entry
      show wp (onRaise _ _) Q E _
      rw [wp_onRaise]
      refine wp_storeUpload (fun d hd ↦ hok _ d (.intro fmt entry d hfmt hbase hd)) fun e d h ↦ ?_
      have hnot : (∀ c, calls c = .ok) → ∀ a d,
          ¬ Accepts readers maxMb catalog filename baseModel upload a d := by
        intro hall a d ha
        cases ha with
        | intro fmt' entry' d hfmt' hbase' hd =>
            rw [hfmt] at hfmt'
            rw [hbase] at hbase'
            cases hfmt'
            cases hbase'
            exact h hall d hd
      rw [wp_quiet]
      exact ⟨fun _ ↦ hraise hsome e none hnot fun _ ↦ rfl,
        fun hfails ↦ hraise hsome e d hnot fun h ↦ absurd hfails h⟩

end Store

/-! ## A sample -/

/-- What is read of bytes that are neither a zip nor a GGUF. -/
def noReaders : Readers where
  sha256 := fun _ ↦ ""
  isZip := fun _ ↦ false
  members := fun _ ↦ none
  gguf := fun _ ↦ none
  decode := fun _ ↦ none
  canon := id

def qwen : Base where
  name := "qwen2.5-0.5b-instruct"
  hfRepoId := "Qwen/Qwen2.5-0.5B-Instruct"
  architecture := "qwen2"
  adapterBaseAliases := []

end Adapta.Adapters.Import
