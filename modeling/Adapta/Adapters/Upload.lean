import Adapta.Adapters.Import
import Adapta.Datasets.EvalSets
import Adapta.Keys.Rows

/-!
# The upload of an adapter

`upload_adapter` of `adapta/api/v1/adapters.py` streams the body into the directory of a new
adapter, has it validated and stored, commits a row and enqueues its job.  Any call on the way
may fail; here at most one does.

The directory is removed after most of the failures, by this module or by `validate_and_store`.
Nothing is done about a row that is committed when the handler raises.

## What is abstracted

* The world is what the request may leave behind: its directory, its committed row, its job.
* The id of the adapter is new, so there is no such directory before.
* A failed call raises an `Exception`; that a request is cancelled while it enqueues is left out.
-/

namespace Adapta.Adapters.Upload

open Lib Effect Api Import
open Keys (Db UserId)
open Datasets (DatasetStatus)

/-! ## The request -/

structure Request where
  projectId : String
  user : UserId
  filename : Option String
  name : Str
  evalDatasetId : String
  /-- The declared size of the body. -/
  size : Option Nat
  body : Bytes

/-- The settings, the reading of files, and what the request finds in the database. -/
structure Setting where
  db : Db
  /-- The status of a dataset of a project. -/
  dataset : (projectId evalDatasetId : String) → Option DatasetStatus
  catalog : List Base
  readers : Readers
  adapterMaxUploadMb : Nat

/-- What the upload writes of a row of `adapters`. -/
structure AdapterRow where
  name : Str
  baseModel : String
  format : AdapterFormat
  peftDir : Option StoredPath
  ggufPath : Option StoredPath
  sha256 : String
  sizeBytes : Nat
  evalDatasetId : String
  status : AdapterStatus
  failureReason : Option String
deriving DecidableEq

/-- What the request may leave behind. -/
structure World where
  /-- The directory of the adapter. -/
  dir : Dir
  /-- The committed row. -/
  row : Option AdapterRow
  /-- The job is in the queue. -/
  queued : Bool
deriving DecidableEq

def World.init : World := { dir := none, row := none, queued := false }

/-- The calls of `upload_adapter`. -/
inductive UploadCall where
  | project
  | member
  | dataset
  | mkdir
  | save (c : SaveCall)
  | store (c : StoreCall)
  /-- The removal of the directory if the body is not stored. -/
  | rmtree
  | commit
  /-- The removal of the directory if the commit fails. -/
  | commitRmtree
  | refresh
  | enqueue
  /-- The commit and the refresh after a failed `enqueue`. -/
  | failCommit
  | failRefresh
deriving DecidableEq, Repr

/-! ## The source -/

abbrev Step := Effect Error World

/-- The name of the file, which decides the format. -/
def Request.storedName (r : Request) : String :=
  match r.filename with
  | none | some "" => "adapter"
  | some s => s

section

variable (calls : UploadCall → Outcome) (c : Setting) (r : Request)

/-- The checks of the dataset. -/
def checkDataset : Except Error Unit :=
  match c.dataset r.projectId r.evalDatasetId with
  | none => .error (Invalid.evalDataset r.evalDatasetId).error
  | some .valid => .ok ()
  | some status => .error (Invalid.evalDatasetStatus status.value).error

/-- `upload_adapter` up to the directory; it returns the project's base model. -/
def checkRequest : Step String := do
  ask (calls .project) .call
  let project ← lift ((c.db.getProject r.projectId).mapError fun e ↦ .rejected (.domain e))
  if project.type = .finetune then do
    ask (calls .member) .call
    let _ ← lift ((c.db.requireTeamWriter r.user project.team).mapError
      fun e ↦ .rejected (.domain e))
    let _ ← lift (formatForFilename r.storedName)
    ask (calls .dataset) .call
    lift (checkDataset c r)
    pure project.baseModel
  else raise (.rejected (.domain (.invalidRequest "This endpoint is for fine-tune projects only")))

/-- The first `try`, on the directory. -/
def receive (baseModel : String) : Import.Step StoredAdapter := do
  let _ ← zoom Dir.getUpload (fun x d ↦ Dir.setUpload d x)
    (saveCappedUpload (fun s ↦ calls (.save s)) c.adapterMaxUploadMb r.size r.body)
  validateAndStore (fun s ↦ calls (.store s)) c.readers c.adapterMaxUploadMb c.catalog
    r.storedName baseModel

/-- The row as it is added. -/
def newRow (stored : StoredAdapter) : AdapterRow :=
  { name := (if strip r.name = [] then str r.storedName else strip r.name).take 128
    baseModel := stored.baseModel
    format := stored.format
    peftDir := stored.peftDir
    ggufPath := stored.ggufPath
    sha256 := stored.sha256
    sizeBytes := stored.sizeBytes
    evalDatasetId := r.evalDatasetId
    status := .uploaded
    failureReason := none }

/-- The assignments after a failed `enqueue`. -/
def AdapterRow.failed (adapter : AdapterRow) : AdapterRow :=
  { adapter with
    status := .failed
    failureReason := some "The job queue is unavailable; upload the adapter again." }

/-- `upload_adapter` from the stored files on. -/
def register (adapter : AdapterRow) : Step AdapterRow := do
  onRaise (call (calls .commit) .call fun w ↦ { w with row := some adapter })
    (quiet (calls .commitRmtree) fun w ↦ { w with dir := none })
  ask (calls .refresh) .call
  tryCatch
    (do
      call (calls .enqueue) .call fun w ↦ { w with queued := true }
      pure adapter)
    fun _ ↦ do
      call (calls .failCommit) .call fun w ↦ { w with row := some adapter.failed }
      ask (calls .failRefresh) .call
      pure adapter.failed

/-- `upload_adapter`. -/
def uploadAdapter : Step AdapterRow := do
  let baseModel ← checkRequest calls c r
  call (calls .mkdir) .call fun w ↦ { w with dir := Dir.make w.dir }
  let stored ← onRaise
    (zoom World.dir (fun d w ↦ { w with dir := d }) (receive calls c r baseModel))
    (quiet (calls .rmtree) fun w ↦ { w with dir := none })
  register calls (newRow r stored)

/-! ## Statement -/

/-- Complete files are at the path, and have passed their checks. -/
inductive Validated (entry : Base) (d : Dir) : StoredPath → Prop
  | gguf : d.bind AdapterDir.gguf = some r.body →
      checkGguf c.readers entry true r.body = .ok () → Validated entry d .gguf
  | peft (config weights : Bytes) : Dir.get d .config = some config →
      Dir.get d .weights = some weights →
      PeftContents c.readers c.adapterMaxUploadMb entry r.body config weights →
      Validated entry d .peft

/-- A path of the row names such files. -/
def AdapterRow.NamesFiles (row : AdapterRow) (d : Dir) : Prop :=
  ∃ entry ∈ c.catalog, entry.name = row.baseModel ∧
    ∃ path, (row.ggufPath = some path ∨ row.peftDir = some path) ∧ Validated c r entry d path

/-- Nothing is left behind, or a row with its files, which has a job or has failed. -/
def World.AllOrNothing (w : World) : Prop :=
  (w.row = none ∧ w.dir = none) ∨
    ∃ row, w.row = some row ∧ row.NamesFiles c r w.dir ∧
      (w.queued = true ∨ row.status = .failed)

/-- At most one call fails. -/
def AtMostOne : Prop := ∀ a b, calls a ≠ .ok → calls b ≠ .ok → a = b

/-- The request is admitted, for a project with this base model. -/
structure Admitted (baseModel : String) : Prop where
  project : calls .project = .ok
  member : calls .member = .ok
  writer : ∃ p role, c.db.getProject r.projectId = .ok p ∧ p.type = .finetune ∧
    c.db.requireTeamWriter r.user p.team = .ok role ∧ p.baseModel = baseModel
  extension : ∃ fmt, formatForFilename r.storedName = .ok fmt
  dataset : calls .dataset = .ok
  valid : c.dataset r.projectId r.evalDatasetId = some .valid

/-- The body passes all checks. -/
def Storable (baseModel : String) : Prop :=
  ¬ TooLarge c.adapterMaxUploadMb r.size r.body ∧
    ∃ a d, Accepts c.readers c.adapterMaxUploadMb c.catalog r.storedName baseModel r.body a d

/-- The request is admitted, and one of these calls fails:
* the `mkdir`, after it has made the directory;
* the removal of the directory, for a body that is too large or a base that is none of the
  catalog;
* the commit, after it has taken effect, or the refresh, for a body that passes all checks. -/
def Leaves : Prop :=
  ∃ baseModel, Admitted calls c r baseModel ∧
    (calls .mkdir = .failsAfter ∨
      ((TooLarge c.adapterMaxUploadMb r.size r.body ∨ resolveBase c.catalog baseModel = none) ∧
        calls .rmtree = .fails) ∨
      (Storable c r baseModel ∧ (calls .commit = .failsAfter ∨ calls .refresh ≠ .ok)))

end

/-! ## How each part ends -/

section

variable {calls : UploadCall → Outcome} {c : Setting} {r : Request}

theorem checkDataset_eq_ok : checkDataset c r = .ok () ↔
    c.dataset r.projectId r.evalDatasetId = some .valid := by
  rw [checkDataset]
  split
  · next h => simp [h]
  · next h => simp [h]
  · next status hstatus h => simpa [h] using hstatus

/-- The project is unique. -/
theorem Admitted.congr {b b' : String} (h : Admitted calls c r b) (h' : Admitted calls c r b') :
    b = b' := by
  obtain ⟨p, -, hp, -, -, rfl⟩ := h.writer
  obtain ⟨p', -, hp', -, -, rfl⟩ := h'.writer
  rw [hp] at hp'
  cases hp'
  rfl

theorem wp_checkRequest {Q : String → World → Prop} {E : Error → World → Prop} {w : World}
    (hok : ∀ b, Admitted calls c r b → Q b w)
    (hraise : (∀ b, ¬ Admitted calls c r b) → ∀ e, E e w) :
    wp (checkRequest calls c r) Q E w := by
  simp only [checkRequest, wp_bind, wp_ask]
  refine ⟨fun hproject ↦ ?_, fun h ↦ hraise (fun b hb ↦ h hb.project) _⟩
  cases hp : c.db.getProject r.projectId with
  | error e =>
      refine hraise (fun b hb ↦ ?_) _
      obtain ⟨p, role, hp', -⟩ := hb.writer
      rw [hp] at hp'
      cases hp'
  | ok p =>
  have hunique : ∀ {b}, Admitted calls c r b → p.type = .finetune ∧
      ∃ role, c.db.requireTeamWriter r.user p.team = .ok role := by
    intro b hb
    obtain ⟨p', role, hp', htype, hrole, -⟩ := hb.writer
    rw [hp] at hp'
    cases hp'
    exact ⟨htype, role, hrole⟩
  simp only [Except.mapError, wp_lift_ok]
  split
  rotate_left
  · next htype => exact hraise (fun b hb ↦ htype (hunique hb).1) _
  next htype =>
  simp only [wp_bind, wp_ask]
  refine ⟨fun hmember ↦ ?_, fun h ↦ hraise (fun b hb ↦ h hb.member) _⟩
  cases hw : c.db.requireTeamWriter r.user p.team with
  | error e =>
      refine hraise (fun b hb ↦ ?_) _
      obtain ⟨-, role, hrole⟩ := hunique hb
      rw [hw] at hrole
      cases hrole
  | ok role =>
  rw [wp_lift_ok]
  cases hfmt : formatForFilename r.storedName with
  | error e =>
      refine hraise (fun b hb ↦ ?_) _
      obtain ⟨fmt, hfmt'⟩ := hb.extension
      rw [hfmt] at hfmt'
      cases hfmt'
  | ok fmt =>
  rw [wp_lift_ok]
  refine ⟨fun hdataset ↦ ?_, fun h ↦ hraise (fun b hb ↦ h hb.dataset) _⟩
  cases hvalid : checkDataset c r with
  | error e =>
      refine hraise (fun b hb ↦ ?_) _
      rw [checkDataset_eq_ok.mpr hb.valid] at hvalid
      cases hvalid
  | ok u =>
      exact hok p.baseModel ⟨hproject, hmember, ⟨p, role, hp, htype, hw, rfl⟩, ⟨fmt, hfmt⟩,
        hdataset, checkDataset_eq_ok.mp hvalid⟩

/-- The body is not saved, or not stored, or it is. -/
theorem wp_receive {baseModel : String} {fmt : AdapterFormat}
    (hfmt : formatForFilename r.storedName = .ok fmt)
    {Q : StoredAdapter → Dir → Prop} {E : Error → Dir → Prop}
    (hok : ∀ a d, ¬ TooLarge c.adapterMaxUploadMb r.size r.body →
      Accepts c.readers c.adapterMaxUploadMb c.catalog r.storedName baseModel r.body a d → Q a d)
    (hsave : ∀ e d, ((∀ s, calls (.save s) = .ok) → TooLarge c.adapterMaxUploadMb r.size r.body) →
      d ≠ none → E e d)
    (hunknown : ¬ TooLarge c.adapterMaxUploadMb r.size r.body →
      resolveBase c.catalog baseModel = none → ∀ e, E e (some (.ofUpload r.body)))
    (hstore : ¬ TooLarge c.adapterMaxUploadMb r.size r.body →
      resolveBase c.catalog baseModel ≠ none → ∀ e d,
      ((∀ s, calls (.store s) = .ok) → ¬ Storable c r baseModel) →
      (calls (.store .rmtree) ≠ .fails → d = none) → E e d) :
    wp (receive calls c r baseModel) Q E (some .empty) := by
  rw [receive, wp_bind, wp_zoom]
  refine wp_saveCappedUpload_of (fun hle ↦ ?_) fun e x h ↦ ?_
  · refine wp_validateAndStore hfmt (fun a d h ↦ hok a d hle h) (hunknown hle) ?_
    intro hbase e d hnot hrm
    exact hstore hle hbase e d (fun hall ⟨_, a, d, h⟩ ↦ hnot hall a d h) hrm
  · exact hsave e _ h (Option.some_ne_none _)

theorem resolveBase_mem {catalog : List Base} {baseModel : String} {entry : Base}
    (h : resolveBase catalog baseModel = some entry) : entry ∈ catalog := by
  rw [resolveBase, Option.or_eq_some_iff] at h
  rcases h with h | ⟨-, h⟩
  · exact List.mem_reverse.mp (List.mem_of_find?_eq_some h)
  · exact List.mem_reverse.mp (List.mem_of_find?_eq_some h)

/-- The row names what was stored. -/
theorem namesFiles_of_accepts {baseModel : String} {a : StoredAdapter} {d : Dir}
    (h : Accepts c.readers c.adapterMaxUploadMb c.catalog r.storedName baseModel r.body a d)
    {row : AdapterRow} (hbase : row.baseModel = a.baseModel) (hgguf : row.ggufPath = a.ggufPath)
    (hpeft : row.peftDir = a.peftDir) : row.NamesFiles c r d := by
  cases h with
  | intro fmt entry d hfmt hentry hd =>
      refine ⟨entry, resolveBase_mem hentry, ?_⟩
      rw [hbase, hgguf, hpeft]
      cases hd with
      | gguf hcheck => exact ⟨rfl, .gguf, .inl rfl, .gguf rfl hcheck⟩
      | peft config weights hp => exact ⟨rfl, .peft, .inr rfl, .peft config weights rfl rfl hp⟩

/-- Without the directory, no row has its files. -/
theorem not_namesFiles_none (row : AdapterRow) : ¬ row.NamesFiles c r none := by
  rintro ⟨entry, -, -, path, -, h⟩
  cases h with
  | gguf h _ => cases h
  | peft config weights h _ _ => cases h

theorem allOrNothing_empty (queued : Bool) :
    World.AllOrNothing c r { dir := none, row := none, queued := queued } := .inl ⟨rfl, rfl⟩

/-- A directory without a row. -/
theorem not_allOrNothing_dir {d : Dir} (hd : d ≠ none) (queued : Bool) :
    ¬ World.AllOrNothing c r { dir := d, row := none, queued := queued } := by
  rintro (⟨-, h⟩ | ⟨row, h, -⟩)
  · exact hd h
  · cases h

/-- A row without files, or without a job. -/
theorem not_allOrNothing_row {d : Dir} {row : AdapterRow} {queued : Bool}
    (h : row.NamesFiles c r d → queued = false ∧ row.status ≠ .failed) :
    ¬ World.AllOrNothing c r { dir := d, row := some row, queued := queued } := by
  rintro (⟨h, -⟩ | ⟨row', hrow, hfiles, hq⟩)
  · cases h
  · cases hrow
    obtain ⟨rfl, hstatus⟩ := h hfiles
    rcases hq with hq | hq
    · cases hq
    · exact hstatus hq

/-- From the stored files on. -/
theorem wp_register {a : StoredAdapter} {d : Dir} {baseModel : String}
    (hone : AtMostOne calls)
    (ha : Accepts c.readers c.adapterMaxUploadMb c.catalog r.storedName baseModel r.body a d) :
    wp (register calls (newRow r a))
      (fun _ w ↦ w.AllOrNothing c r ↔ ¬ (calls .commit = .failsAfter ∨ calls .refresh ≠ .ok))
      (fun _ w ↦ w.AllOrNothing c r ↔ ¬ (calls .commit = .failsAfter ∨ calls .refresh ≠ .ok))
      { dir := d, row := none, queued := false } := by
  have hrow : (newRow r a).NamesFiles c r d := namesFiles_of_accepts ha rfl rfl rfl
  have hfailed : (newRow r a).failed.NamesFiles c r d := namesFiles_of_accepts ha rfl rfl rfl
  -- the call `x` fails, so no other does
  have hother : ∀ {x y}, calls x ≠ .ok → x ≠ y → calls y = .ok :=
    fun hx hxy ↦ by_contra fun hy ↦ hxy (hone _ _ hx hy)
  have hne : ∀ {x o}, calls x = o → o ≠ .ok → calls x ≠ .ok := fun h ho ↦ h ▸ ho
  simp only [register, wp_bind, wp_onRaise, wp_tryCatch, wp_call, wp_quiet, wp_ask, wp_pure]
  refine ⟨fun hcommit ↦ ⟨fun hrefresh ↦ ?_, fun hrefresh ↦ ?_⟩, fun hcommit ↦ ?_,
    fun hcommit ↦ ?_⟩
  · have hnone : ¬ (calls .commit = .failsAfter ∨ calls .refresh ≠ .ok) := by
      simp [hcommit, hrefresh]
    have hstatus : ∀ queued,
        World.AllOrNothing c r { dir := d, row := some (newRow r a).failed, queued := queued } :=
      fun _ ↦ .inr ⟨_, rfl, hfailed, .inr rfl⟩
    -- a failed commit of the status would be the second failing call
    have hfail : ∀ {o}, calls .enqueue = o → o ≠ .ok → calls .failCommit = .ok :=
      fun h ho ↦ hother (hne h ho) (by decide)
    refine ⟨fun _ ↦ iff_of_true (.inr ⟨_, rfl, hrow, .inl rfl⟩) hnone, fun h ↦ ?_, fun h ↦ ?_⟩
    · rw [hfail h (by decide)]
      refine ⟨fun _ ↦ ⟨fun _ ↦ ?_, fun _ ↦ ?_⟩, nofun, nofun⟩
      · exact iff_of_true (hstatus false) hnone
      · exact iff_of_true (hstatus false) hnone
    · rw [hfail h (by decide)]
      refine ⟨fun _ ↦ ⟨fun _ ↦ ?_, fun _ ↦ ?_⟩, nofun, nofun⟩
      · exact iff_of_true (hstatus true) hnone
      · exact iff_of_true (hstatus true) hnone
  · refine iff_of_false ?_ (not_not.mpr (.inr hrefresh))
    exact not_allOrNothing_row fun _ ↦ ⟨rfl, nofun⟩
  · have hrm : calls .commitRmtree = .ok := hother (hne hcommit (by decide)) (by decide)
    have hrefresh : calls .refresh = .ok := hother (hne hcommit (by decide)) (by decide)
    rw [hrm]
    refine ⟨fun _ ↦ iff_of_true (allOrNothing_empty false) ?_, nofun⟩
    simp [hcommit, hrefresh]
  · have hrm : calls .commitRmtree = .ok := hother (hne hcommit (by decide)) (by decide)
    rw [hrm]
    refine ⟨fun _ ↦ iff_of_false ?_ (not_not.mpr (.inl hcommit)), nofun⟩
    exact not_allOrNothing_row fun h ↦ absurd h (not_namesFiles_none _)

theorem leaves_iff {b : String} (hb : Admitted calls c r b) :
    Leaves calls c r ↔
      calls .mkdir = .failsAfter ∨
        ((TooLarge c.adapterMaxUploadMb r.size r.body ∨ resolveBase c.catalog b = none) ∧
          calls .rmtree = .fails) ∨
        (Storable c r b ∧ (calls .commit = .failsAfter ∨ calls .refresh ≠ .ok)) := by
  constructor
  · rintro ⟨b', hb', h⟩
    rwa [hb.congr hb']
  · exact fun h ↦ ⟨b, hb, h⟩

/-- Nothing is left if the directory is removed and no row can be committed. -/
theorem not_leaves {b : String} (hone : AtMostOne calls) (hb : Admitted calls c r b)
    (hmkdir : calls .mkdir ≠ .failsAfter)
    (hrm : (TooLarge c.adapterMaxUploadMb r.size r.body ∨ resolveBase c.catalog b = none) →
      calls .rmtree ≠ .fails)
    (hrow : Storable c r b → ∃ x, calls x ≠ .ok ∧ x ≠ .commit ∧ x ≠ .refresh) :
    ¬ Leaves calls c r := by
  rw [leaves_iff hb]
  rintro (h | ⟨hlarge, h⟩ | ⟨hstorable, h⟩)
  · exact hmkdir h
  · exact hrm hlarge h
  · obtain ⟨x, hx, hcommit, hrefresh⟩ := hrow hstorable
    rcases h with h | h
    · refine hcommit (hone _ _ hx ?_)
      rw [h]
      decide
    · exact hrefresh (hone _ _ hx h)

end

/-- **All or nothing.** -/
theorem uploadAdapter_allOrNothing_iff (calls : UploadCall → Outcome) (c : Setting) (r : Request)
    (hone : AtMostOne calls) :
    ((uploadAdapter calls c r) World.init).2.AllOrNothing c r ↔ ¬ Leaves calls c r := by
  have hempty := allOrNothing_empty (c := c) (r := r) false
  rw [← wp_final (P := fun w ↦ World.AllOrNothing c r w ↔ ¬ Leaves calls c r)]
  rw [uploadAdapter, wp_bind]
  refine wp_checkRequest (fun b hb ↦ ?_) fun hnot e ↦ iff_of_true hempty fun ⟨b, hb, _⟩ ↦ hnot b hb
  -- if `x` fails, the calls that lead to a leftover do not
  have hother : ∀ {x y}, calls x ≠ .ok → x ≠ y → calls y = .ok :=
    fun hx hxy ↦ by_contra fun hy ↦ hxy (hone _ _ hx hy)
  simp only [wp_bind, wp_call, wp_onRaise, wp_zoom, wp_quiet]
  refine ⟨fun hmkdir ↦ ?_, fun hmkdir ↦ ?_, fun hmkdir ↦ ?_⟩
  · have hmk : calls .mkdir ≠ .failsAfter := by
      rw [hmkdir]
      decide
    obtain ⟨fmt, hfmt⟩ := hb.extension
    refine wp_receive hfmt (fun a d hle ha ↦ ?_) (fun e d h hd ↦ ?_) (fun hle hbase e ↦ ?_)
      fun hle hbase e d h hd ↦ ?_
    · have hbase : resolveBase c.catalog b ≠ none := by
        cases ha with
        | intro fmt entry d _ hentry _ => exact hentry ▸ Option.some_ne_none entry
      have hlast : Leaves calls c r ↔ calls .commit = .failsAfter ∨ calls .refresh ≠ .ok := by
        have hstorable : Storable c r b := ⟨hle, a, d, ha⟩
        rw [leaves_iff hb]
        simp [hmkdir, hle, hbase, hstorable]
      refine wp_mono (wp_register hone ha) ?_ ?_
      · exact fun _ _ h ↦ h.trans (not_congr hlast.symm)
      · exact fun _ _ h ↦ h.trans (not_congr hlast.symm)
    · refine ⟨fun hrm ↦ iff_of_true hempty ?_, fun hrm ↦ ?_⟩
      · refine not_leaves hone hb hmk (fun _ ↦ hrm) fun hstorable ↦ ?_
        by_contra hnot
        refine hstorable.1 (h fun s ↦ by_contra fun hs ↦ hnot ⟨_, hs, nofun, nofun⟩)
      · have hrm' : calls .rmtree ≠ .ok := by
          rw [hrm]
          decide
        have hlarge := h fun s ↦ hother hrm' nofun
        refine iff_of_false (not_allOrNothing_dir hd _) (not_not.mpr ?_)
        exact (leaves_iff hb).mpr (.inr (.inl ⟨.inl hlarge, hrm⟩))
    · refine ⟨fun hrm ↦ iff_of_true hempty ?_, fun hrm ↦ ?_⟩
      · refine not_leaves hone hb hmk (fun _ ↦ hrm) fun hstorable ↦ ?_
        obtain ⟨-, a, d, ha⟩ := hstorable
        cases ha with
        | intro fmt entry d _ hentry _ =>
            rw [hbase] at hentry
            cases hentry
      · refine iff_of_false (not_allOrNothing_dir (Option.some_ne_none _) _) (not_not.mpr ?_)
        exact (leaves_iff hb).mpr (.inr (.inl ⟨.inr hbase, hrm⟩))
    · have hnot : ¬ Leaves calls c r := by
        refine not_leaves hone hb hmk ?_ fun hstorable ↦ ?_
        · rintro (h | h)
          · exact absurd h hle
          · exact absurd h hbase
        · by_contra hnot
          refine h (fun s ↦ by_contra fun hs ↦ hnot ⟨_, hs, nofun, nofun⟩) hstorable
      refine ⟨fun _ ↦ iff_of_true hempty hnot, fun hrm ↦ ?_⟩
      -- the removal of `validate_and_store` is another call
      have hrm' : calls .rmtree ≠ .ok := by
        rw [hrm]
        decide
      have hstore : calls (.store .rmtree) = .ok := hother hrm' nofun
      have hd : d = none := hd (by rw [hstore]; decide)
      rw [hd]
      exact iff_of_true hempty hnot
  · refine iff_of_true hempty ?_
    have hne : calls .mkdir ≠ .ok := by
      rw [hmkdir]
      decide
    refine not_leaves hone hb (by rw [hmkdir]; decide) (fun _ ↦ ?_) fun _ ↦
      ⟨.mkdir, hne, nofun, nofun⟩
    rw [hother hne (by decide)]
    decide
  · refine iff_of_false (not_allOrNothing_dir (Option.some_ne_none _) _) (not_not.mpr ?_)
    exact (leaves_iff hb).mpr (.inl hmkdir)

/-- Only the call `x` fails. -/
def failing (x : UploadCall) : UploadCall → Outcome := fun y ↦ if y = x then .fails else .ok

theorem atMostOne_failing (x : UploadCall) : AtMostOne (failing x) := by
  have h : ∀ y, failing x y ≠ .ok → y = x := fun y hy ↦ by_contra fun hne ↦ hy (if_neg hne)
  exact fun a b ha hb ↦ (h a ha).trans (h b hb).symm

/-- Any body with the magic is a LoRA for the base. -/
def loraReaders : Readers :=
  { noReaders with
    gguf := fun _ ↦ some fun key ↦
      if key = "general.type" then some "adapter"
      else if key = "adapter.type" then some "lora" else some "qwen2" }

/-- A project with one member and one valid dataset. -/
def oneProject : Setting where
  db := { Db.empty with
    projects := [⟨"p", "t", "Project", none, .finetune, "qwen2.5-0.5b-instruct"⟩]
    role := fun _ _ ↦ some .member }
  dataset := fun _ _ ↦ some .valid
  catalog := [qwen]
  readers := loraReaders
  adapterMaxUploadMb := 512

def oneUpload : Request := ⟨"p", "u", some "a.gguf", str "lora", "d", some 4, ggufMagic⟩

/-- A commit that fails leaves nothing. -/
theorem uploadAdapter_commit_fails :
    ((uploadAdapter (failing .commit) oneProject oneUpload) World.init).2.AllOrNothing
      oneProject oneUpload := by
  refine (uploadAdapter_allOrNothing_iff _ _ _ (atMostOne_failing .commit)).mpr ?_
  rintro ⟨b, -, h | ⟨-, h⟩ | ⟨-, h | h⟩⟩
  · exact absurd h (by decide)
  · exact absurd h (by decide)
  · exact absurd h (by decide)
  · exact absurd rfl h

/-- A refresh that fails leaves an `uploaded` row without a job. -/
theorem uploaded_without_job :
    ¬ ∀ calls c r, AtMostOne calls →
      ((uploadAdapter calls c r) World.init).2.AllOrNothing c r := by
  intro hall
  have h := hall _ oneProject oneUpload (atMostOne_failing .refresh)
  have hrun : ((uploadAdapter (failing .refresh) oneProject oneUpload) World.init).2 =
      { dir := some ⟨none, some ggufMagic, none, none⟩
        row := some
          { name := str "lora"
            baseModel := "qwen2.5-0.5b-instruct"
            format := .gguf
            peftDir := none
            ggufPath := some .gguf
            sha256 := ""
            sizeBytes := 4
            evalDatasetId := "d"
            status := .uploaded
            failureReason := none }
        queued := false } := by decide
  rw [hrun] at h
  exact not_allOrNothing_row (fun _ ↦ ⟨rfl, by decide⟩) h

end Adapta.Adapters.Upload
