import Mathlib.Data.List.DropRight
import Adapta.Api.Upload
import Adapta.Files.Stores
import Adapta.Keys.Rows

/-!
# The file and the row of an upload

`upload_file` of `adapta/api/v1/files.py` inserts a row in an open transaction, streams the body
into a file named for the row, hashes the file and looks for a duplicate, and commits the row or
removes the file.  Any call on the way may fail.

## What is abstracted

* The world is what the request may leave behind: its file, its committed row, its job.  The
  transaction is rolled back when the request raises before the commit has taken effect, so an
  inserted row that is not committed is no part of the world.
* The id of the row is new, so nothing is at the destination before.
* The digest is a parameter, and so are the other rows of the project.
-/

namespace Adapta.Files.Saving

open Lib Effect Api
open Keys (Db UserId)

/-! ## The request -/

/-- A row of `project_files`. -/
structure FileRow where
  filename : String
  contentType : String
  sizeBytes : Nat
  storagePath : String
  status : FileStatus
  contentSha256 : Option String
  errorMessage : Option String
deriving DecidableEq

/-- What the query for a duplicate reads of another row of the project. -/
structure OtherFile where
  contentSha256 : Option String
  status : FileStatus

structure Request where
  projectId : String
  user : UserId
  filename : Option String
  contentType : Option String
  /-- The declared size of the body. -/
  size : Option Nat
  body : Bytes

/-- The settings, the id of the new row, the digest, and what the request finds in the database. -/
structure Setting where
  db : Db
  uploadsDir : String
  maxUploadMb : Nat
  fileId : String
  sha256 : Bytes → String
  others : List OtherFile

/-- What the request may leave behind. -/
structure World where
  /-- The file at the destination. -/
  file : Option Bytes
  /-- The committed row. -/
  row : Option FileRow
  /-- The job is in the queue. -/
  queued : Bool
deriving DecidableEq

def World.init : World := { file := none, row := none, queued := false }

/-- The calls of `upload_file`. -/
inductive UploadCall where
  | project
  | member
  | mkdir
  | flush
  | save (c : SaveCall)
  | hash
  /-- The query for a duplicate. -/
  | duplicate
  | unlink
  | delete
  | commit
  | enqueue
  /-- The commit after a failed `enqueue`. -/
  | failCommit
deriving DecidableEq, Repr

/-! ## The source -/

/-- `_ALLOWED_EXTENSIONS`. -/
def allowedExtensions : List (List Char) :=
  [".pdf", ".docx", ".txt", ".md", ".markdown", ".html", ".htm", ".png", ".jpg", ".jpeg", ".tif",
    ".tiff"].map String.toList

/-- `str.lower`, where it gives a letter of an extension: the Kelvin sign becomes a `k`. -/
def lowerChar (c : Char) : Char := if c = '\u212A' then 'k' else c.toLower

/-- `Path(filename).suffix`. -/
def suffix (filename : String) : List Char :=
  let parts := (filename.toList.splitOn '/').filter fun part ↦ part ≠ [] ∧ part ≠ ['.']
  let name := parts.getLastD []
  let stem := name.rdropWhile (· ≠ '.')
  if 1 < stem.length ∧ stem.length < name.length then '.' :: name.drop stem.length else []

/-- The extension is one that the parser knows. -/
def allowed (filename : String) : Bool :=
  allowedExtensions.contains ((suffix filename).map lowerChar)

namespace Request

variable (r : Request)

/-- The name that is stored. -/
def name : String :=
  match r.filename with
  | none | some "" => "upload"
  | some s => String.ofList (s.toList.take 200)

end Request

namespace Setting

variable (c : Setting) (r : Request)

def destPath : String := s!"{c.uploadsDir}/{r.projectId}/{c.fileId}_{r.name}"

/-- Another file of the project, which has not failed, has the digest. -/
def duplicate (digest : String) : Bool :=
  c.others.any fun o ↦ o.contentSha256 = some digest && o.status ≠ .failed

end Setting

/-- The row as it is inserted. -/
def newRow (r : Request) : FileRow :=
  { filename := r.name
    contentType :=
      match r.contentType with
      | none | some "" => "application/octet-stream"
      | some s => s
    sizeBytes := 0
    storagePath := ""
    status := .pending
    contentSha256 := none
    errorMessage := none }

abbrev Step := Effect (Raised DomainError) World

/-- A duplicate: the file is removed, and the transaction inserts the row and deletes it. -/
def rejectDuplicate (calls : UploadCall → Outcome) : Step String := do
  call (calls .unlink) .call fun w ↦ { w with file := none }
  ask (calls .delete) .call
  ask (calls .commit) .call
  raise (.rejected (.conflict "This document is already indexed in this project."))

/-- The assignments after a failed `enqueue`. -/
def FileRow.failed (pfile : FileRow) : FileRow :=
  { pfile with
    status := .failed
    errorMessage := some "The job queue is unavailable; upload the file again." }

/-- The commit of the row, and the job. -/
def commitAndEnqueue (calls : UploadCall → Outcome) (pfile : FileRow) : Step String := do
  call (calls .commit) .call fun w ↦ { w with row := some pfile }
  tryCatch
    (do
      call (calls .enqueue) .call fun w ↦ { w with queued := true }
      pure "pending")
    fun _ ↦ do
      call (calls .failCommit) .call fun w ↦ { w with row := some pfile.failed }
      pure "failed"

/-- `upload_file` from the stored file on. -/
def register (calls : UploadCall → Outcome) (c : Setting) (pfile : FileRow) : Step String := do
  ask (calls .hash) .call
  let digest ← gets fun w ↦ c.sha256 (w.file.getD [])
  ask (calls .duplicate) .call
  if c.duplicate digest then rejectDuplicate calls
  else commitAndEnqueue calls { pfile with contentSha256 := some digest }

/-- `upload_file`; it returns the status. -/
def uploadFile (calls : UploadCall → Outcome) (c : Setting) (r : Request) : Step String := do
  ask (calls .project) .call
  let project ← lift ((c.db.getProject r.projectId).mapError .rejected)
  ask (calls .member) .call
  let _ ← lift ((c.db.requireTeamWriter r.user project.team).mapError .rejected)
  if allowed r.name then do
    ask (calls .mkdir) .call
    ask (calls .flush) .call
    let written ← zoom World.file (fun f w ↦ { w with file := f })
      (saveCappedUpload (fun s ↦ calls (.save s)) c.maxUploadMb r.size r.body)
    register calls c { newRow r with sizeBytes := written, storagePath := c.destPath r }
  else raise (.rejected (.invalidRequest
    "Unsupported file type. Accepted: PDF, DOCX, TXT, Markdown (.md), HTML."))

/-! ## Statement -/

/-- The row is committed and its path holds the whole body, or there is neither row nor file. -/
def World.AllOrNothing (c : Setting) (r : Request) (w : World) : Prop :=
  (∃ row, w.row = some row ∧ row.storagePath = c.destPath r ∧ w.file = some r.body) ∨
    (w.row = none ∧ w.file = none)

/-- The request is admitted: the project and the caller's role are found, the extension is
allowed, and the row is inserted. -/
structure Admitted (calls : UploadCall → Outcome) (c : Setting) (r : Request) : Prop where
  project : calls .project = .ok
  member : calls .member = .ok
  writer : ∃ p role, c.db.getProject r.projectId = .ok p ∧
    c.db.requireTeamWriter r.user p.team = .ok role
  extension : allowed r.name = true
  mkdir : calls .mkdir = .ok
  flush : calls .flush = .ok

/-- A call fails from the stored file on: the digest, the query, and the removal of a duplicate's
file or else the commit. -/
def Unregistered (calls : UploadCall → Outcome) (c : Setting) (r : Request) : Prop :=
  calls .hash ≠ .ok ∨ calls .duplicate ≠ .ok ∨
    if c.duplicate (c.sha256 r.body) then calls .unlink = .fails else calls .commit = .fails

/-- A call fails that nothing is cleaned up after. -/
def Uncleaned (calls : UploadCall → Outcome) (c : Setting) (r : Request) : Prop :=
  Interrupted (fun s ↦ calls (.save s)) c.maxUploadMb r.body ∨
    if c.maxUploadMb * mebibyte < r.body.length then calls (.save .unlink) = .fails
    else Unregistered calls c r

/-- The request has opened its file, and then such a call fails. -/
def Stranded (calls : UploadCall → Outcome) (c : Setting) (r : Request) : Prop :=
  Admitted calls c r ∧ ¬ DeclaredTooLarge c.maxUploadMb r.size ∧
    (calls (.save .open) = .failsAfter ∨
      (calls (.save .open) = .ok ∧ Uncleaned calls c r))

/-! ## Settled -/

section

variable {calls : UploadCall → Outcome} {c : Setting} {r : Request}

theorem allOrNothing_empty (queued : Bool) :
    World.AllOrNothing c r { file := none, row := none, queued := queued } :=
  .inr ⟨rfl, rfl⟩

/-- A file without a row. -/
theorem not_allOrNothing_file (x : Bytes) (queued : Bool) :
    ¬ World.AllOrNothing c r { file := some x, row := none, queued := queued } := by
  rintro (⟨row, hrow, -⟩ | ⟨-, hfile⟩)
  · cases hrow
  · cases hfile

theorem allOrNothing_row {row : FileRow} (hrow : row.storagePath = c.destPath r) (queued : Bool) :
    World.AllOrNothing c r { file := some r.body, row := some row, queued := queued } :=
  .inl ⟨row, rfl, hrow, rfl⟩

theorem wp_rejectDuplicate {P : World → Prop}
    (hkept : calls .unlink = .fails → P { file := some r.body, row := none, queued := false })
    (hgone : calls .unlink ≠ .fails → P World.init) :
    wp (rejectDuplicate calls) (fun _ ↦ P) (fun _ ↦ P)
      { file := some r.body, row := none, queued := false } := by
  simp only [rejectDuplicate, wp_bind, wp_ask, wp_call, wp_raise]
  refine ⟨fun hunlink ↦ ?_, hkept, fun hunlink ↦ ?_⟩
  · have hgone := hgone (by rw [hunlink]; decide)
    exact ⟨fun _ ↦ ⟨fun _ ↦ hgone, fun _ ↦ hgone⟩, fun _ ↦ hgone⟩
  · exact hgone (by rw [hunlink]; decide)

theorem wp_commitAndEnqueue {pfile : FileRow} {P : World → Prop}
    (hfails : calls .commit = .fails → P { file := some r.body, row := none, queued := false })
    (hrow : calls .commit ≠ .fails → ∀ queued, 
      P { file := some r.body, row := some pfile, queued := queued } ∧
      P { file := some r.body, row := some pfile.failed, queued := queued }) :
    wp (commitAndEnqueue calls pfile) (fun _ ↦ P) (fun _ ↦ P)
      { file := some r.body, row := none, queued := false } := by
  simp only [commitAndEnqueue, wp_bind, wp_tryCatch, wp_call, wp_pure]
  refine ⟨fun hcommit ↦ ?_, hfails, fun hcommit ↦ ?_⟩
  · have hrow := hrow (by rw [hcommit]; decide)
    refine ⟨fun _ ↦ (hrow true).1, fun _ ↦ ?_, fun _ ↦ ?_⟩
    · exact ⟨fun _ ↦ (hrow false).2, fun _ ↦ (hrow false).1, fun _ ↦ (hrow false).2⟩
    · exact ⟨fun _ ↦ (hrow true).2, fun _ ↦ (hrow true).1, fun _ ↦ (hrow true).2⟩
  · exact (hrow (by rw [hcommit]; decide) false).1

/-- From the stored file on. -/
theorem wp_register {pfile : FileRow} (hpath : pfile.storagePath = c.destPath r) :
    wp (register calls c pfile)
      (fun _ w ↦ w.AllOrNothing c r ↔ ¬ Unregistered calls c r)
      (fun _ w ↦ w.AllOrNothing c r ↔ ¬ Unregistered calls c r)
      { file := some r.body, row := none, queued := false } := by
  have hfile := not_allOrNothing_file (c := c) (r := r) r.body false
  simp only [register, wp_bind, wp_ask, wp_gets, Option.getD_some]
  refine ⟨fun hhash ↦ ⟨fun hdup ↦ ?_, fun hdup ↦ ?_⟩, fun hhash ↦ ?_⟩
  · have hlast : Unregistered calls c r ↔
        if c.duplicate (c.sha256 r.body) then calls .unlink = .fails
        else calls .commit = .fails := by
      simp [Unregistered, hhash, hdup]
    rw [hlast]
    split
    · refine wp_rejectDuplicate (fun hfails ↦ ?_) fun hfails ↦ ?_
      · exact iff_of_false hfile (not_not.mpr hfails)
      · exact iff_of_true (allOrNothing_empty _) hfails
    · refine wp_commitAndEnqueue (fun hfails ↦ ?_) fun hfails queued ↦ ⟨?_, ?_⟩
      · exact iff_of_false hfile (not_not.mpr hfails)
      · exact iff_of_true (allOrNothing_row (by exact hpath) _) hfails
      · exact iff_of_true (allOrNothing_row (by exact hpath) _) hfails
  · exact iff_of_false hfile (not_not.mpr (.inr (.inl hdup)))
  · exact iff_of_false hfile (not_not.mpr (.inl hhash))

/-- **All or nothing.** -/
theorem allOrNothing_iff (calls : UploadCall → Outcome) (c : Setting) (r : Request) :
    ((uploadFile calls c r) World.init).2.AllOrNothing c r ↔ ¬ Stranded calls c r := by
  have hempty := allOrNothing_empty (c := c) (r := r) false
  -- the request has left nothing behind
  have hnone : ¬ Stranded calls c r →
      (World.AllOrNothing c r World.init ↔ ¬ Stranded calls c r) := iff_of_true hempty
  have hadmit : ¬ Admitted calls c r →
      (World.AllOrNothing c r World.init ↔ ¬ Stranded calls c r) := fun h ↦ hnone fun hs ↦ h hs.1
  rw [← wp_final (P := fun w ↦ World.AllOrNothing c r w ↔ ¬ Stranded calls c r)]
  simp only [uploadFile, wp_bind, wp_ask]
  refine ⟨fun hproject ↦ ?_, fun h ↦ hadmit fun ha ↦ h ha.project⟩
  cases hp : c.db.getProject r.projectId with
  | error e =>
      refine hadmit fun ha ↦ ?_
      obtain ⟨p, -, hp', -⟩ := ha.writer
      rw [hp] at hp'
      cases hp'
  | ok p =>
  refine ⟨fun hmember ↦ ?_, fun h ↦ hadmit fun ha ↦ h ha.member⟩
  cases hw : c.db.requireTeamWriter r.user p.team with
  | error e =>
      refine hadmit fun ha ↦ ?_
      obtain ⟨p', role, hp', hw'⟩ := ha.writer
      rw [hp] at hp'
      cases hp'
      rw [hw] at hw'
      cases hw'
  | ok role =>
  simp only [Except.mapError, wp_lift_ok]
  split
  rotate_left
  · next hext => exact hadmit fun ha ↦ hext ha.extension
  next hext =>
  simp only [wp_bind, wp_ask, wp_zoom]
  refine ⟨fun hmkdir ↦ ⟨fun hflush ↦ ?_, fun h ↦ hadmit fun ha ↦ h ha.flush⟩,
    fun h ↦ hadmit fun ha ↦ h ha.mkdir⟩
  have hadmitted : Admitted calls c r :=
    ⟨hproject, hmember, ⟨p, role, hp, hw⟩, hext, hmkdir, hflush⟩
  have hfile : ¬ ¬ Stranded calls c r → ∀ x, World.AllOrNothing c r
      { World.init with file := some x } ↔ ¬ Stranded calls c r :=
    fun h x ↦ iff_of_false (not_allOrNothing_file x _) h
  have hstranded : ¬ DeclaredTooLarge c.maxUploadMb r.size → calls (.save .open) = .ok →
      (Stranded calls c r ↔ Uncleaned calls c r) := by
    intro hdeclared hopen
    rw [Stranded, hopen]
    simp [hadmitted, hdeclared]
  refine wp_saveCappedUpload ?_ ?_ ?_ ?_ ?_
  · intro hdeclared _
    exact hnone fun hs ↦ hs.2.1 hdeclared
  · intro hdeclared
    refine ⟨fun hopen ↦ hnone ?_, fun hopen ↦ ?_⟩
    · rintro ⟨-, -, h | ⟨h, -⟩⟩
      · rw [hopen] at h
        cases h
      · rw [hopen] at h
        cases h
    · exact hfile (fun h ↦ h ⟨hadmitted, hdeclared, .inl hopen⟩) _
  · intro hdeclared hopen hint x
    exact hfile (fun h ↦ h ⟨hadmitted, hdeclared, .inr ⟨hopen, .inl hint⟩⟩) x
  · intro hdeclared hopen hint hlong
    have hunlink : Stranded calls c r ↔ calls (.save .unlink) = .fails := by
      rw [hstranded hdeclared hopen, Uncleaned, if_pos hlong]
      exact or_iff_right hint
    rw [hunlink]
    exact ⟨fun hun x ↦ iff_of_false (not_allOrNothing_file _ _) (not_not.mpr hun),
      fun hun _ ↦ iff_of_true hempty hun⟩
  · intro hdeclared hopen hint hshort
    have hregister : Stranded calls c r ↔ Unregistered calls c r := by
      rw [hstranded hdeclared hopen, Uncleaned, if_neg (Nat.not_lt.mpr hshort)]
      exact or_iff_right hint
    rw [hregister]
    exact wp_register rfl

end

/-- A project with one member. -/
def oneProject : Setting where
  db := { Db.empty with
    projects := [⟨"p", "t", "Project", none, .rag, "qwen2.5-1.5b-instruct"⟩]
    role := fun _ _ ↦ some .member }
  uploadsDir := "uploads"
  maxUploadMb := 1024
  fileId := "f"
  sha256 := fun _ ↦ "digest"
  others := []

/-- The disk is full: the write of the first chunk fails, and an empty file stays. -/
theorem upload_leaves_file :
    ¬ ∀ calls c r, ((uploadFile calls c r) World.init).2.AllOrNothing c r := by
  intro hall
  have h := hall (fun call ↦ if call = .save (.write 0) then .fails else .ok) oneProject
    ⟨"p", "u", some "a.txt", none, some 1, [65]⟩
  have hrun : ((uploadFile (fun call ↦ if call = .save (.write 0) then .fails else .ok) oneProject
      ⟨"p", "u", some "a.txt", none, some 1, [65]⟩) World.init).2 =
        { file := some [], row := none, queued := false } := by decide
  rw [hrun] at h
  exact not_allOrNothing_file _ _ h

end Adapta.Files.Saving
