import Adapta.Extraction.Failures
import Adapta.Extraction.Schema
import Adapta.Files.Saving
import Adapta.Lib.GroupBy

/-!
# Pages that need review

The list of a project's files (`list_files` of `adapta/api/v1/files.py`) shows of each file how
many of its pages need review.  The route `extract_file` of the same module queues the job that
reads these pages again.

The list counts with one grouped query over the chunks of all its files, and the route selects
the pages of one file.  They agree: the route refuses a file of which the list shows no page or
too many, and otherwise the job is for as many pages as the list shows (`extractRoute_listed`).

In every run of jobs, for any files and with any failures, a page leaves the list only when it
has been transcribed, and the number for a file goes down by the pages that the jobs report as
read again (`review_runJobs`).
-/

namespace Adapta.Extraction

open Lib Documents Api
open Files (FileStatus)
open Keys (ProjectId UserId)
open Reembed (FileId ChunkId chunkId)

variable {φ : Type}

/-! ## The list -/

/-- A row of `project_files`. -/
structure ProjectFile where
  id : FileId
  projectId : ProjectId
  filename : String
  status : FileStatus
  sizeBytes : Nat
  /-- `uploaded_at.isoformat()`. -/
  uploadedAt : String
  errorMessage : Option String
deriving DecidableEq

structure Tables (φ : Type) where
  db : Keys.Db
  files : List ProjectFile
  /-- `projects.extraction_schema`. -/
  schemaOf : ProjectId → Option Json
  stores : Stores φ

structure FileResponse where
  id : FileId
  filename : String
  status : FileStatus
  numChunks : Option Nat
  sizeBytes : Nat
  uploadedAt : String
  pagesNeedingReview : Nat
  errorMessage : Option String
deriving DecidableEq

/-- `_pages_needing_review`. -/
def pagesNeedingReview (rows : List (Row φ)) (fileIds : List FileId) : FileId → Option Nat :=
  if fileIds = [] then fun _ ↦ none
  else
    -- `count(distinct page)` does not count the chunks without a page
    dictOf (groupBy Row.fileId (fun l ↦ (l.filterMap Row.page).dedup.length)
      ((rows.filter fun r ↦ r.fileId ∈ fileIds).filter Row.needsReview))

/-- `_chunk_counts`. -/
def chunkCounts (rows : List (Row φ)) (fileIds : List FileId) : FileId → Option Nat :=
  if fileIds = [] then fun _ ↦ none
  else dictOf (groupBy Row.fileId List.length (rows.filter fun r ↦ r.fileId ∈ fileIds))

/-- `_file_resp`. -/
def fileResp (f : ProjectFile) (pagesNeedingReview numChunks : Nat) : FileResponse :=
  { id := f.id
    filename := f.filename
    status := f.status
    numChunks := if f.status = .indexed then some numChunks else none
    sizeBytes := f.sizeBytes
    uploadedAt := f.uploadedAt
    pagesNeedingReview
    errorMessage := f.errorMessage }

/-- `list_files`. -/
def listFiles (t : Tables φ) (user : UserId) (p : ProjectId) :
    Except DomainError (List FileResponse) := do
  let project ← t.db.getProject p
  let _ ← t.db.requireTeamMember user project.team
  let files := t.files.filter (·.projectId = p)
  let flagged := pagesNeedingReview t.stores.rows (files.map ProjectFile.id)
  let counts := chunkCounts t.stores.rows (files.map ProjectFile.id)
  pure (files.map fun f ↦ fileResp f ((flagged f.id).getD 0) ((counts f.id).getD 0))

/-! ## The route -/

/-- `_RENDERABLE`. -/
def renderable : List (List Char) :=
  [".pdf", ".png", ".jpg", ".jpeg", ".tif", ".tiff"].map String.toList

/-- `check_extractable`. -/
def checkExtractable (filename : String) (status : FileStatus) (schema : Option Json) :
    Except DomainError Json :=
  match schema with
  | none => .error (.invalidRequest
      "Set the project's extraction_schema first (PATCH /v1/projects/\x7bid\x7d).")
  | some schema =>
      if !renderable.contains ((Files.Saving.suffix filename).map Files.Saving.lowerChar) then
        .error (.invalidRequest "Visual extraction supports PDF and image files only.")
      else if status ≠ .indexed then
        .error (.conflict "The file must be indexed before fields can be extracted.")
      else .ok schema

/-- A job in the queue, and what the route answers. -/
structure Queued where
  id : FileId
  jobId : Str
  allPages : Bool
  pages : Nat
deriving DecidableEq

def noPages : String :=
  "No pages need review in this file; pass all_pages=true to read every page."

/-- The route from the selection of the pages on.  The id of the job is the file's with a random
suffix. -/
def queuePages (cfg : Settings) (f : FileId) (pages : Nat) (allPages : Bool) (suffix : Str)
    (enqueues : Bool) : Except DomainError Queued :=
  if pages = 0 then .error (.invalidRequest noPages)
  else if cfg.extractMaxPages < pages then
    .error (.invalidRequest (tooManyPages pages cfg.extractMaxPages))
  -- an `InternalError`
  else if !enqueues then .error .other
  else .ok ⟨f, f ++ str "-x" ++ suffix, allPages, pages⟩

/-- `extract_file` of `files.py`. -/
def extractRoute (cfg : Settings) (t : Tables φ) (user : UserId) (p : ProjectId) (f : FileId)
    (allPages : Bool) (suffix : Str) (enqueues : Bool) : Except DomainError Queued := do
  let project ← t.db.getProject p
  let _ ← t.db.requireTeamWriter user project.team
  match t.files.find? (fun file ↦ file.id = f ∧ file.projectId = p) with
  | none => .error (.notFound "File not found")
  | some file =>
      let schema ← checkExtractable file.filename file.status (t.schemaOf p)
      let _ ← (validateSchema schema).mapError .invalidRequest
      queuePages cfg f (selectPages (t.stores.fileRows f) allPages).length allPages suffix enqueues

/-! ## What the list shows -/

/-- The pages of a file that need review. -/
def reviewPages (f : FileId) (st : Stores φ) : List Int := selectPages (st.fileRows f) false

variable {st : Stores φ} {f g : FileId} {page : Int}

theorem mem_reviewPages : page ∈ reviewPages f st ↔
    ∃ r ∈ st.fileRows f, r.needsReview = true ∧ r.page = some page := by
  rw [reviewPages, selectPages, List.mem_insertionSort, List.mem_dedup, List.mem_filterMap]
  simp only [List.mem_filter, Bool.false_or, and_assoc]

theorem nodup_reviewPages : (reviewPages f st).Nodup := nodup_selectPages _ _

theorem length_reviewPages : (reviewPages f st).length =
    (((st.fileRows f).filter Row.needsReview).filterMap Row.page).dedup.length := by
  rw [reviewPages, selectPages, List.length_insertionSort]
  simp only [Bool.false_or]

/-- The condition on the files of the list leaves the rows of each of them. -/
theorem filter_filter_fileId {ids : List FileId} (hf : f ∈ ids) :
    ((st.rows.filter fun r ↦ r.fileId ∈ ids).filter fun r ↦ r.fileId = f) = st.fileRows f := by
  rw [Stores.fileRows, List.filter_filter]
  refine List.filter_congr fun r _ ↦ ?_
  by_cases h : r.fileId = f
  · simp [h, hf]
  · simp [h]

/-- The grouped count of the pages is that of each file. -/
theorem pagesNeedingReview_getD {ids : List FileId} (hf : f ∈ ids) :
    (pagesNeedingReview st.rows ids f).getD 0 = (reviewPages f st).length := by
  rw [pagesNeedingReview, if_neg (List.ne_nil_of_mem hf), dictOf_groupBy_getD (by rfl),
    List.filter_comm, filter_filter_fileId hf, length_reviewPages]

theorem chunkCounts_getD {ids : List FileId} (hf : f ∈ ids) :
    (chunkCounts st.rows ids f).getD 0 = (st.fileRows f).length := by
  rw [chunkCounts, if_neg (List.ne_nil_of_mem hf), dictOf_groupBy_getD (by rfl),
    filter_filter_fileId hf]

/-- The entry of a file in the list. -/
def entryOf (st : Stores φ) (file : ProjectFile) : FileResponse :=
  fileResp file (reviewPages file.id st).length (st.fileRows file.id).length

variable {t : Tables φ} {user : UserId} {p : ProjectId}

/-- The list has an entry for each file of the project. -/
theorem listFiles_eq : listFiles t user p = (do
    let project ← t.db.getProject p
    let _ ← t.db.requireTeamMember user project.team
    pure ((t.files.filter (·.projectId = p)).map (entryOf t.stores))) := by
  have hentries : ((t.files.filter (·.projectId = p)).map fun file ↦ fileResp file
      ((pagesNeedingReview t.stores.rows ((t.files.filter (·.projectId = p)).map ProjectFile.id)
        file.id).getD 0)
      ((chunkCounts t.stores.rows ((t.files.filter (·.projectId = p)).map ProjectFile.id)
        file.id).getD 0)) = (t.files.filter (·.projectId = p)).map (entryOf t.stores) := by
    refine List.map_congr_left fun file hfile ↦ ?_
    have hid := List.mem_map_of_mem (f := ProjectFile.id) hfile
    rw [pagesNeedingReview_getD hid, chunkCounts_getD hid]
    rfl
  simp only [listFiles, hentries]

theorem listFiles_eq_ok {page : List FileResponse} : listFiles t user p = .ok page ↔
    (∃ project role, t.db.getProject p = .ok project ∧
      t.db.requireTeamMember user project.team = .ok role) ∧
    page = (t.files.filter (·.projectId = p)).map (entryOf t.stores) := by
  rw [listFiles_eq]
  cases hp : t.db.getProject p with
  | error e => simp [bind, Except.bind]
  | ok project =>
      cases hrole : t.db.requireTeamMember user project.team with
      | error e => simp [bind, Except.bind, hrole]
      | ok role => simp [bind, Except.bind, hrole, pure, Except.pure, eq_comm]

/-! ## The route and the list -/

variable {cfg : Settings} {pages : Nat} {allPages enqueues : Bool} {suffix : Str} {q : Queued}

theorem queuePages_eq_ok : queuePages cfg f pages allPages suffix enqueues = .ok q ↔
    (0 < pages ∧ pages ≤ cfg.extractMaxPages ∧ enqueues = true) ∧
      q = ⟨f, f ++ str "-x" ++ suffix, allPages, pages⟩ := by
  rw [queuePages]
  split_ifs with hnone hmany henq
  · simp [hnone]
  · simp only [false_iff]
    omega
  · simp only [false_iff]
    rintro ⟨⟨-, -, h⟩, -⟩
    simp [h] at henq
  · rw [Except.ok.injEq, eq_comm, and_iff_right]
    exact ⟨by omega, by omega, by simpa using henq⟩

/-- **The route takes what the list shows.**  For a file in the list, the job is queued if and only
if the caller may write, the file and the schema pass their checks, and the list shows a number of
pages between one and the limit.  The answer has this number. -/
theorem extractRoute_listed (cfg : Settings) (suffix : Str) (enqueues : Bool) (q : Queued)
    {t : Tables φ} {user : UserId} {p : ProjectId} {page : List FileResponse} {r : FileResponse}
    (hunique : (t.files.map ProjectFile.id).Nodup) (hlist : listFiles t user p = .ok page)
    (hr : r ∈ page) :
    extractRoute cfg t user p r.id false suffix enqueues = .ok q ↔
      (∃ project role, t.db.getProject p = .ok project ∧
        t.db.requireTeamWriter user project.team = .ok role) ∧
      (∃ schema l, checkExtractable r.filename r.status (t.schemaOf p) = .ok schema ∧
        validateSchema schema = .ok l) ∧
      (0 < r.pagesNeedingReview ∧ r.pagesNeedingReview ≤ cfg.extractMaxPages ∧ enqueues = true) ∧
      q = ⟨r.id, r.id ++ str "-x" ++ suffix, false, r.pagesNeedingReview⟩ := by
  rw [(listFiles_eq_ok.mp hlist).2] at hr
  obtain ⟨file, hfile, rfl⟩ := List.mem_map.mp hr
  obtain ⟨hmem, hproject⟩ := List.mem_filter.mp hfile
  have hfind : t.files.find? (fun x ↦ x.id = file.id ∧ x.projectId = p) = some file := by
    have honly := filter_of_nodup hunique file.id
    rw [find?_of_nodup hunique hmem] at honly
    have hboth : t.files.find? (fun x ↦ x.id = file.id ∧ x.projectId = p) =
        (t.files.filter fun x ↦ x.id = file.id).find? fun x ↦ x.projectId = p := by
      rw [List.find?_filter]
      congr 1
      funext x
      simp
    rw [hboth, honly]
    exact List.find?_cons_of_pos hproject
  have hid : (entryOf t.stores file).id = file.id := rfl
  rw [extractRoute, hid, hfind]
  cases hp : t.db.getProject p with
  | error e => simp [bind, Except.bind]
  | ok project =>
      cases hw : t.db.requireTeamWriter user project.team with
      | error e => simp [bind, Except.bind, hw]
      | ok role =>
          have hcheck : checkExtractable (entryOf t.stores file).filename
            (entryOf t.stores file).status (t.schemaOf p) =
              checkExtractable file.filename file.status (t.schemaOf p) := rfl
          rw [hcheck]
          cases hschema : checkExtractable file.filename file.status (t.schemaOf p) with
          | error e => simp [bind, Except.bind, hw, hschema]
          | ok schema =>
              cases hvalid : validateSchema schema with
              | error e => simp [bind, Except.bind, hw, hschema, hvalid, Except.mapError]
              | ok l =>
                  have hqueue : queuePages cfg file.id (reviewPages file.id t.stores).length false
                      suffix enqueues = .ok q ↔ _ := queuePages_eq_ok
                  simp only [bind, Except.bind, hw, hschema, hvalid, Except.mapError]
                  refine hqueue.trans ?_
                  simp [hw, entryOf, fileResp, hvalid]

/-! ## Keyed rows -/

/-- The ids are the primary keys: each is made of its row's file and index. -/
structure Keyed (st : Stores φ) : Prop where
  ids : ∀ r ∈ st.rows, r.id = chunkId r.fileId r.chunkIndex
  indexes : ∀ g, ((st.fileRows g).map Row.chunkIndex).Nodup

/-- What stands behind the last underscore is the index. -/
theorem fileId_of_chunkId {i j : Nat} (h : chunkId f i = chunkId g j) : f = g := by
  have hcut : ∀ (x : FileId) (n : Nat),
      (chunkId x n).rdropWhile (· ≠ .char '_') = x ++ [.char '_'] := by
    intro x n
    have hdigit : ∀ c ∈ ((Nat.toDigits 10 n).map Code.char).reverse,
        decide (c ≠ .char '_') = true := by
      intro c hc
      obtain ⟨d, hd, rfl⟩ := List.mem_map.mp (List.mem_reverse.mp hc)
      rw [decide_eq_true_eq]
      intro heq
      rw [Code.char.inj heq] at hd
      exact absurd (Nat.isDigit_of_mem_toDigits (by decide) (by decide) hd) (by decide)
    rw [chunkId, List.append_cons, List.rdropWhile, List.reverse_append,
      List.dropWhile_append_of_pos hdigit]
    simp
  have hcuts := congrArg (List.rdropWhile (· ≠ .char '_')) h
  rw [hcut, hcut] at hcuts
  exact List.append_cancel_right hcuts

/-- The rows, with the vectors that they should have. -/
def mirrored (st : Stores φ) : Stores φ :=
  { st with vectors := st.rows.map fun r ↦ ⟨r.id, r.text, [], r.chunkIndex, r.fileId⟩ }

theorem Keyed.aligned (h : Keyed st) (f : FileId) : Aligned f (mirrored st) := by
  have hids : ∀ r ∈ st.fileRows f, r.id = chunkId f r.chunkIndex := by
    intro r hr
    obtain ⟨hmem, hfile⟩ := List.mem_filter.mp hr
    rw [h.ids r hmem, of_decide_eq_true hfile]
  have hvectors : (mirrored st).fileVectors f =
      (st.fileRows f).map fun r ↦ ⟨r.id, r.text, [], r.chunkIndex, r.fileId⟩ := by
    rw [Stores.fileVectors, mirrored, List.filter_map, Stores.fileRows]
    rfl
  constructor
  · exact hids
  · exact h.indexes f
  · rw [hvectors, List.map_map]
    have hmap : (st.fileRows f).map (Entry.id ∘ fun r ↦
        ⟨r.id, r.text, [], r.chunkIndex, r.fileId⟩) =
          ((st.fileRows f).map Row.chunkIndex).map (chunkId f) := by
      rw [List.map_map]
      exact List.map_congr_left hids
    rw [hmap]
    exact (h.indexes f).map fun _ _ ↦ chunkId_inj
  · have hpairs : vectorPairs f (mirrored st).vectors = rowPairs f (mirrored st) := by
      rw [vectorPairs, mirrored, List.filter_map, List.map_map]
      rfl
    rw [agree_iff_mirrors, hpairs]
    exact fun _ ↦ Iff.rfl

/-! ## A page -/

/-- The pages that are taken from those that need review. -/
structure Shrinks (f : FileId) (taken : List Int) (st st' : Stores φ) : Prop where
  nodup : taken.Nodup
  subset : ∀ p ∈ taken, p ∈ reviewPages f st
  review : ∀ p, p ∈ reviewPages f st' ↔ p ∈ reviewPages f st ∧ p ∉ taken

theorem Shrinks.of_eq {st st' : Stores φ} (h : ∀ p, p ∈ reviewPages f st' ↔ p ∈ reviewPages f st) :
    Shrinks f [] st st' where
  nodup := List.nodup_nil
  subset := nofun
  review p := by simp [h p]

theorem Shrinks.trans {st st' st'' : Stores φ} {taken taken' : List Int}
    (h : Shrinks f taken st st') (h' : Shrinks f taken' st' st'') :
    Shrinks f (taken ++ taken') st st'' where
  nodup := by
    refine List.nodup_append.mpr ⟨h.nodup, h'.nodup, fun p hp q hq hpq ↦ ?_⟩
    exact ((h.review q).mp (h'.subset q hq)).2 (hpq ▸ hp)
  subset p hp := by
    rcases List.mem_append.mp hp with hp | hp
    · exact h.subset p hp
    · exact ((h.review p).mp (h'.subset p hp)).1
  review p := by
    rw [h'.review, h.review, List.mem_append]
    tauto

theorem Shrinks.length {st st' : Stores φ} {taken : List Int} (h : Shrinks f taken st st') :
    (reviewPages f st').length + taken.length = (reviewPages f st).length := by
  rw [← List.length_append]
  refine List.Perm.length_eq ((List.perm_ext_iff_of_nodup ?_ nodup_reviewPages).mpr fun p ↦ ?_)
  · refine List.nodup_append.mpr ⟨nodup_reviewPages, h.nodup, fun p hp q hq hpq ↦ ?_⟩
    exact ((h.review p).mp hp).2 (hpq ▸ hq)
  · rw [List.mem_append, h.review]
    constructor
    · rintro (hp | hp)
      · exact hp.1
      · exact h.subset p hp
    · intro hp
      by_cases htaken : p ∈ taken
      · exact .inr htaken
      · exact .inl ⟨hp, htaken⟩

variable {filename text : Str} {fields : Option φ} {vectors : List Entry} {fails : Call → Bool}

/-- The rows of other files are not those of a page. -/
theorem Keyed.fileRows_replaced_ne (h : Keyed st) (hg : g ≠ f) :
    Stores.fileRows g ⟨newRows cfg f filename page text fields st, vectors⟩ = st.fileRows g := by
  have hnew : (buildChunkRows cfg f fields (pageChunks cfg f filename page text st)).filter
      (fun r ↦ r.fileId = g) = [] := by
    rw [List.filter_eq_nil_iff]
    intro r hr hfile
    obtain ⟨c, -, rfl⟩ := List.mem_map.mp hr
    exact hg (of_decide_eq_true hfile).symm
  rw [Stores.fileRows, newRows, List.filter_append, hnew, List.append_nil, List.filter_filter,
    Stores.fileRows]
  refine List.filter_congr fun r hr ↦ ?_
  by_cases hfile : r.fileId = g
  · have hkeep : r.id ∉ (st.pageRows f page).map Row.id := by
      intro hid
      obtain ⟨r', hr', heq⟩ := List.mem_map.mp hid
      obtain ⟨hmem, hfile'⟩ := List.mem_filter.mp (mem_pageRows.mp hr').1
      rw [h.ids r' hmem, h.ids r hr] at heq
      exact hg (by rw [← hfile, ← fileId_of_chunkId heq, of_decide_eq_true hfile'])
    simp [hfile, hkeep]
  · simp [hfile]

theorem Keyed.replaced (h : Keyed st) :
    Keyed ⟨newRows cfg f filename page text fields st, vectors⟩ where
  ids r hr := by
    rcases List.mem_append.mp hr with hr | hr
    · exact h.ids r (List.mem_filter.mp hr).1
    · obtain ⟨c, -, rfl⟩ := List.mem_map.mp hr
      rfl
  indexes g := by
    by_cases hg : g = f
    · subst hg
      exact ((h.aligned g).replaced fields).indexes
    · rw [h.fileRows_replaced_ne hg]
      exact h.indexes g

/-- The chunks of a transcription are not flagged. -/
theorem Keyed.review_replaced (h : Keyed st) (p : Int) :
    p ∈ reviewPages f ⟨newRows cfg f filename page text fields st, vectors⟩ ↔
      p ∈ reviewPages f st ∧ p ≠ page := by
  obtain ⟨hrows, hother⟩ := (h.aligned f).pageRows_replaced cfg filename page fields text vectors
  have hclear := (texts_buildChunkRows cfg f filename page fields text (mirrored st)).2
  rw [mem_reviewPages, mem_reviewPages]
  constructor
  · rintro ⟨r, hr, hflag, hp⟩
    by_cases hpage : r.page = some page
    · have hfalse := hclear r (by
        rw [← hrows]
        exact List.mem_filter.mpr ⟨hr, decide_eq_true hpage⟩)
      rw [hflag] at hfalse
      cases hfalse
    · refine ⟨⟨r, (hother r hpage).mp hr, hflag, hp⟩, fun heq ↦ hpage ?_⟩
      rw [hp, heq]
  · rintro ⟨⟨r, hr, hflag, hp⟩, hne⟩
    refine ⟨r, (hother r fun hpage ↦ hne ?_).mpr hr, hflag, hp⟩
    exact Option.some.inj (hp.symm.trans hpage)

theorem fileRows_filled_ne (hg : g ≠ f) :
    Stores.fileRows g ⟨filledRows f page fields st, vectors⟩ = st.fileRows g := by
  have hfile : ∀ r : Row φ, (if fields.isSome ∧ r.fileId = f ∧ r.page = some page then
      { r with fields := fields } else r).fileId = r.fileId := by
    intro r
    split_ifs
    · rfl
    · rfl
  rw [Stores.fileRows, filledRows, List.filter_map, Stores.fileRows]
  simp only [Function.comp_def, hfile]
  refine (List.map_congr_left fun r hr ↦ if_neg ?_).trans (List.map_id _)
  rintro ⟨-, hf, -⟩
  rw [List.mem_filter, decide_eq_true_eq] at hr
  exact hg (hr.2.symm.trans hf)

theorem Keyed.filled (h : Keyed st) : Keyed ⟨filledRows f page fields st, vectors⟩ where
  ids r hr := by
    obtain ⟨r', hr', rfl⟩ := List.mem_map.mp hr
    split_ifs
    · exact h.ids r' hr'
    · exact h.ids r' hr'
  indexes g := by
    by_cases hg : g = f
    · subst hg
      exact ((h.aligned g).filled fields).indexes
    · rw [fileRows_filled_ne hg]
      exact h.indexes g

/-- Setting fields changes no flag. -/
theorem review_filled (p : Int) :
    p ∈ reviewPages f ⟨filledRows f page fields st, vectors⟩ ↔ p ∈ reviewPages f st := by
  rw [mem_reviewPages, mem_reviewPages, fileRows_filled]
  constructor
  · rintro ⟨r, hr, hflag, hp⟩
    obtain ⟨r', hr', rfl⟩ := List.mem_map.mp hr
    refine ⟨r', hr', ?_⟩
    split_ifs at hflag hp
    · exact ⟨hflag, hp⟩
    · exact ⟨hflag, hp⟩
  · rintro ⟨r, hr, hflag, hp⟩
    refine ⟨_, List.mem_map_of_mem hr, ?_⟩
    split_ifs
    · exact ⟨hflag, hp⟩
    · exact ⟨hflag, hp⟩

/-- What a page does: its rows are replaced, or nothing changes for the review. -/
theorem Keyed.processPage (h : Keyed st) (cfg : Settings) (filename : Str) (fails : Call → Bool)
    (page : Int) (fields : Option φ) (text : Str) (htext : text ≠ [] → page ∈ reviewPages f st) :
    Keyed (processPage cfg f filename fails page fields text st).1 ∧
      (∀ g, g ≠ f → (Extraction.processPage cfg f filename fails page fields text st).1.fileRows g =
        st.fileRows g) ∧
      Shrinks f (if (Extraction.processPage cfg f filename fails page fields text st).2 = .done true
        then [page] else []) st
        (Extraction.processPage cfg f filename fails page fields text st).1 := by
  have hstep : PageStep cfg f filename page fields text st
    (Extraction.processPage cfg f filename fails page fields text st) := processPage_step text st
  generalize Extraction.processPage cfg f filename fails page fields text st = out at hstep
  have hsame : ∀ vectors, Keyed ⟨st.rows, vectors⟩ ∧
      (∀ g, g ≠ f → Stores.fileRows g ⟨st.rows, vectors⟩ = st.fileRows g) ∧
      Shrinks f [] st ⟨st.rows, vectors⟩ :=
    fun _ ↦ ⟨⟨h.ids, h.indexes⟩, fun _ _ ↦ rfl, .of_eq fun _ ↦ Iff.rfl⟩
  cases hstep with
  | absent => exact hsame _
  | replaced hne =>
      refine ⟨h.replaced, fun g hg ↦ h.fileRows_replaced_ne hg, ?_⟩
      rw [if_pos rfl]
      refine ⟨List.nodup_singleton _, ?_, fun p ↦ ?_⟩
      · simpa using htext hne
      · rw [h.review_replaced, List.mem_singleton]
  | filled => exact ⟨h.filled, fun g hg ↦ fileRows_filled_ne hg, .of_eq review_filled⟩
  | untouched => exact hsame _
  | surplusLeft => exact hsame _
  | uncommitted => exact hsame _

theorem processPage_end (cfg : Settings) (f : FileId) (filename : Str) (fails : Call → Bool)
    (page : Int) (fields : Option φ) (text : Str) (st : Stores φ) :
    ((Extraction.processPage cfg f filename fails page fields text st).2 = .absent →
      st.pageRows f page = []) ∧
    ∀ again, (Extraction.processPage cfg f filename fails page fields text st).2 = .done again →
      (again = true ↔ text ≠ []) := by
  have hstep : PageStep cfg f filename page fields text st
    (Extraction.processPage cfg f filename fails page fields text st) := processPage_step text st
  generalize Extraction.processPage cfg f filename fails page fields text st = out at hstep
  cases hstep with
  | absent hold => exact ⟨fun _ ↦ hold, nofun⟩
  | replaced hne =>
      refine ⟨nofun, fun again heq ↦ ?_⟩
      cases heq
      exact iff_of_true rfl hne
  | filled hnil =>
      refine ⟨nofun, fun again heq ↦ ?_⟩
      cases heq
      exact iff_of_false nofun (not_not.mpr hnil)
  | untouched => exact ⟨nofun, nofun⟩
  | surplusLeft => exact ⟨nofun, nofun⟩
  | uncommitted => exact ⟨nofun, nofun⟩

theorem pageRows_ne_nil_of_review (h : page ∈ reviewPages f st) : st.pageRows f page ≠ [] := by
  obtain ⟨r, hr, -, hpage⟩ := mem_reviewPages.mp h
  exact List.ne_nil_of_mem (mem_pageRows.mpr ⟨hr, hpage⟩)

/-! ## The loop -/

section

variable {flagged : List (Option Int)} {readings : Int → Reading φ} {done reread : Nat}
  {fails : Int → Call → Bool} {pages taken : List Int} {st' : Stores φ} {out : Stores φ × End φ}

/-- The loop over some pages takes those of which there is a transcription, and counts them. -/
structure Takes (f : FileId) (flagged : List (Option Int)) (readings : Int → Reading φ)
    (pages : List Int) (st : Stores φ) (reread : Nat) (taken : List Int)
    (out : Stores φ × End φ) : Prop where
  keyed : Keyed out.1
  others : ∀ g, g ≠ f → out.1.fileRows g = st.fileRows g
  shrinks : Shrinks f taken st out.1
  said : ∀ p ∈ taken, transcribed flagged readings p ≠ []
  finished : ∀ done reread', out.2 = .finished done reread' → reread' = reread + taken.length ∧
    ∀ p ∈ pages, transcribed flagged readings p ≠ [] → p ∈ taken

/-- The loop ends early. -/
theorem Takes.stop {e : End φ} (hkeyed : Keyed st')
    (hothers : ∀ g, g ≠ f → st'.fileRows g = st.fileRows g) (hshrinks : Shrinks f [] st st')
    (hend : ∀ done reread', e ≠ .finished done reread') :
    Takes f flagged readings pages st reread [] (st', e) where
  keyed := hkeyed
  others := hothers
  shrinks := hshrinks
  said := nofun
  finished done reread' heq := absurd heq (hend done reread')

/-- One page, and then the others. -/
theorem Takes.cons {head : List Int} (hothers : ∀ g, g ≠ f → st'.fileRows g = st.fileRows g)
    (hshrinks : Shrinks f head st st')
    (hhead : ∀ p, p ∈ head ↔ p = page ∧ transcribed flagged readings page ≠ [])
    (h : Takes f flagged readings pages st' (reread + head.length) taken out) :
    Takes f flagged readings (page :: pages) st reread (head ++ taken) out where
  keyed := h.keyed
  others g hg := (h.others g hg).trans (hothers g hg)
  shrinks := hshrinks.trans h.shrinks
  said p hp := by
    rcases List.mem_append.mp hp with hp | hp
    · obtain ⟨rfl, hsaid⟩ := (hhead p).mp hp
      exact hsaid
    · exact h.said p hp
  finished done reread' heq := by
    obtain ⟨hcount, hall⟩ := h.finished done reread' heq
    refine ⟨by rw [hcount, List.length_append, Nat.add_assoc], fun p hp hsaid ↦ ?_⟩
    rw [List.mem_append]
    rcases List.mem_cons.mp hp with rfl | hp
    · exact .inl ((hhead p).mpr ⟨rfl, hsaid⟩)
    · exact .inr (hall p hp hsaid)

theorem Keyed.runPages (h : Keyed st) (cfg : Settings) (filename : Str)
    (fails : Int → Call → Bool) (done reread : Nat) (hnodup : pages.Nodup)
    (hflagged : ∀ p ∈ pages, some p ∈ flagged → p ∈ reviewPages f st) :
    ∃ taken, Takes f flagged readings pages st reread taken
      (Extraction.runPages cfg f filename flagged readings fails pages st done reread) := by
  induction pages generalizing st done reread with
  | nil =>
      refine ⟨[], h, fun _ _ ↦ rfl, .of_eq fun _ ↦ Iff.rfl, fun _ hp ↦ absurd hp List.not_mem_nil, ?_⟩
      intro done' reread' heq
      cases heq
      exact ⟨rfl, fun _ hp ↦ absurd hp List.not_mem_nil⟩
  | cons page pages ih =>
      obtain ⟨hpage, hnodup⟩ := List.nodup_cons.mp hnodup
      rw [Extraction.runPages]
      cases hread : readings page with
      | timeout =>
          refine ⟨[], .stop h (fun _ _ ↦ rfl) (.of_eq fun _ ↦ Iff.rfl) fun done' reread' heq ↦ ?_⟩
          cases heq
      | failed =>
          obtain ⟨taken, htakes⟩ := ih h done reread hnodup
            fun p hp ↦ hflagged p (List.mem_cons_of_mem _ hp)
          have hsaid : transcribed flagged readings page = [] := by
            rw [transcribed, hread]
          refine ⟨_, .cons (fun _ _ ↦ rfl) (.of_eq fun _ ↦ Iff.rfl) ?_ htakes⟩
          simp [hsaid]
      | replies fields said =>
          have hsaid : transcribed flagged readings page = textOf flagged page said := by
            rw [transcribed, hread]
          have htext : textOf flagged page said ≠ [] → page ∈ reviewPages f st := by
            intro hne
            rw [textOf] at hne
            split_ifs at hne with hflag
            · exact hflagged page List.mem_cons_self hflag
            · exact absurd rfl hne
          have hpage' := h.processPage cfg filename (fails page) page fields
            (textOf flagged page said) htext
          have hends := processPage_end cfg f filename (fails page) page fields
            (textOf flagged page said) st
          simp only
          generalize Extraction.processPage cfg f filename (fails page) page fields
            (textOf flagged page said) st = out at hpage' hends
          obtain ⟨st', e⟩ := out
          obtain ⟨hkeyed, hothers, hshrinks⟩ := hpage'
          simp only at hkeyed hothers hshrinks hends
          have hflagged' : ∀ p ∈ pages, some p ∈ flagged → p ∈ reviewPages f st' := by
            intro p hp hflag
            refine (hshrinks.review p).mpr ⟨hflagged p (List.mem_cons_of_mem _ hp) hflag, ?_⟩
            split_ifs
            · rw [List.mem_singleton]
              exact fun heq ↦ hpage (heq ▸ hp)
            · exact List.not_mem_nil
          cases e with
          | absent =>
              obtain ⟨taken, htakes⟩ := ih hkeyed done reread hnodup hflagged'
              have hnil : textOf flagged page said = [] :=
                of_not_not fun hne ↦ pageRows_ne_nil_of_review (htext hne) (hends.1 rfl)
              refine ⟨_, .cons hothers hshrinks (fun p ↦ ?_) htakes⟩
              simp [hsaid, hnil]
          | done again =>
              have hagain := hends.2 again rfl
              cases again with
              | true =>
                  obtain ⟨taken, htakes⟩ := ih hkeyed (done + 1) (reread + 1) hnodup hflagged'
                  refine ⟨_, .cons hothers hshrinks (fun p ↦ ?_) htakes⟩
                  simp [hsaid, hagain.mp rfl]
              | false =>
                  obtain ⟨taken, htakes⟩ := ih hkeyed (done + 1) reread hnodup hflagged'
                  refine ⟨_, .cons hothers hshrinks (fun p ↦ ?_) htakes⟩
                  have hnil : textOf flagged page said = [] :=
                    of_not_not fun hne ↦ Bool.false_ne_true (hagain.mpr hne)
                  simp [hsaid, hnil]
          | raised call =>
              refine ⟨[], .stop hkeyed hothers hshrinks fun done' reread' heq ↦ ?_⟩
              cases heq

end

/-! ## Jobs -/

/-- What the model reads on a page, without its line breaks. -/
def readingOf (readings : Int → Reading φ) (page : Int) : Str :=
  match readings page with
  | .replies _ said => squeeze said
  | _ => []

/-- The number of pages that a job reports as read again, if it returns. -/
def Result.reread : Result φ → Option Nat
  | .returned _ n => some n
  | _ => none

theorem transcribed_of_review {readings : Int → Reading φ} (h : page ∈ reviewPages f st) :
    transcribed (flaggedPages (st.fileRows f)) readings page = readingOf readings page := by
  obtain ⟨r, hr, hflag, hpage⟩ := mem_reviewPages.mp h
  have hmem : some page ∈ flaggedPages (st.fileRows f) :=
    List.mem_map.mpr ⟨r, List.mem_filter.mpr ⟨hr, hflag⟩, hpage⟩
  rw [transcribed, readingOf]
  cases readings page with
  | timeout => rfl
  | failed => rfl
  | replies fields said => exact if_pos hmem

theorem review_of_flagged (h : some page ∈ flaggedPages (st.fileRows f)) :
    page ∈ reviewPages f st := by
  obtain ⟨r, hr, hpage⟩ := List.mem_map.mp h
  obtain ⟨hmem, hflag⟩ := List.mem_filter.mp hr
  exact mem_reviewPages.mpr ⟨r, hmem, hflag, hpage⟩

theorem selectPages_of_review (h : page ∈ reviewPages f st) (allPages : Bool) :
    page ∈ selectPages (st.fileRows f) allPages := by
  obtain ⟨r, hr, hflag, hpage⟩ := mem_reviewPages.mp h
  rw [selectPages, List.mem_insertionSort, List.mem_dedup, List.mem_filterMap]
  exact ⟨r, List.mem_filter.mpr ⟨hr, by rw [hflag, Bool.or_true]⟩, hpage⟩

/-- What a job takes: pages of its file, of which there is a reading, and all of these if it
returns. -/
structure JobTakes (f : FileId) (readings : Int → Reading φ) (st : Stores φ) (taken : List Int)
    (out : Stores φ × Result φ) : Prop where
  keyed : Keyed out.1
  others : ∀ g, g ≠ f → out.1.fileRows g = st.fileRows g
  shrinks : Shrinks f taken st out.1
  said : ∀ p ∈ taken, readingOf readings p ≠ []
  returned : ∀ n, out.2.reread = some n → n = taken.length ∧
    ∀ p ∈ reviewPages f st, readingOf readings p ≠ [] → p ∈ taken

theorem Keyed.extractFile (h : Keyed st) (cfg : Settings) (f : FileId) (lookup : Except String Str)
    (allPages : Bool) (readings : Int → Reading φ) (fails : Int → Call → Bool) :
    ∃ taken, JobTakes f readings st taken
      (extractFile cfg f lookup allPages readings fails st) := by
  have hstop : ∀ r : Result φ, r.reread = none → ∃ taken, JobTakes f readings st taken (st, r) := by
    intro r hr
    refine ⟨[], h, fun _ _ ↦ rfl, .of_eq fun _ ↦ Iff.rfl,
      fun _ hp ↦ absurd hp List.not_mem_nil, fun n hn ↦ ?_⟩
    rw [hr] at hn
    cases hn
  cases lookup with
  | error message => exact hstop _ rfl
  | ok filename =>
      simp only [Extraction.extractFile]
      split
      · exact hstop _ rfl
      · have htakes : ∃ taken, Takes f (flaggedPages (st.fileRows f)) readings
            (selectPages (st.fileRows f) allPages) st 0 taken
            (Extraction.runPages cfg f filename (flaggedPages (st.fileRows f)) readings fails
              (selectPages (st.fileRows f) allPages) st 0 0) :=
          h.runPages cfg filename fails 0 0 (nodup_selectPages (st.fileRows f) allPages)
            fun p _ hflag ↦ review_of_flagged hflag
        generalize Extraction.runPages cfg f filename (flaggedPages (st.fileRows f)) readings fails
          (selectPages (st.fileRows f) allPages) st 0 0 = out at htakes
        obtain ⟨taken, htakes⟩ := htakes
        obtain ⟨st', e⟩ := out
        have hsaid : ∀ p ∈ taken, readingOf readings p ≠ [] := by
          intro p hp
          rw [← transcribed_of_review (htakes.shrinks.subset p hp)]
          exact htakes.said p hp
        refine ⟨taken, ?_⟩
        cases e with
        | timeout page =>
            refine ⟨htakes.keyed, htakes.others, htakes.shrinks, hsaid, fun n hn ↦ ?_⟩
            cases hn
        | storeRaised page call before =>
            refine ⟨htakes.keyed, htakes.others, htakes.shrinks, hsaid, fun n hn ↦ ?_⟩
            cases hn
        | finished done reread =>
            refine ⟨htakes.keyed, htakes.others, htakes.shrinks, hsaid, fun n hn ↦ ?_⟩
            obtain ⟨hcount, hall⟩ := htakes.finished done reread rfl
            simp only at hn
            split_ifs at hn
            · cases hn
            · cases hn
              refine ⟨by rw [hcount, Nat.zero_add], fun p hp hne ↦ ?_⟩
              refine hall p (selectPages_of_review hp allPages) ?_
              rwa [transcribed_of_review hp]

/-! ## Runs -/

/-- An `extract` job, with what comes of its calls. -/
structure ExtractJob (φ : Type) where
  file : FileId
  lookup : Except String Str
  allPages : Bool
  readings : Int → Reading φ
  fails : Int → Call → Bool

/-- The worker takes one job after the other. -/
def runJobs (cfg : Settings) : List (ExtractJob φ) → Stores φ →
    Stores φ × List (ExtractJob φ × Result φ)
  | [], st => (st, [])
  | job :: jobs, st =>
      let out := extractFile cfg job.file job.lookup job.allPages job.readings job.fails st
      let rest := runJobs cfg jobs out.1
      (rest.1, (job, out.2) :: rest.2)

/-- The pages of a file that the jobs report as read again. -/
def rereadOf (f : FileId) (log : List (ExtractJob φ × Result φ)) : Nat :=
  ((log.filter (·.1.file = f)).map fun x ↦ x.2.reread.getD 0).sum

/-- Every job of the file has returned. -/
def AllReturn (f : FileId) (log : List (ExtractJob φ × Result φ)) : Prop :=
  ∀ x ∈ log, x.1.file = f → x.2.reread ≠ none

/-- What some jobs take from the pages of a file that need review. -/
structure RunTakes (f : FileId) (st : Stores φ) (taken : List Int)
    (out : Stores φ × List (ExtractJob φ × Result φ)) : Prop where
  shrinks : Shrinks f taken st out.1
  said : ∀ p ∈ taken, ∃ x ∈ out.2, x.1.file = f ∧ readingOf x.1.readings p ≠ []
  left : ∀ p ∈ reviewPages f out.1, ∀ x ∈ out.2, x.1.file = f → x.2.reread ≠ none →
    readingOf x.1.readings p = []
  reread_le : rereadOf f out.2 ≤ taken.length
  reread_eq : AllReturn f out.2 → rereadOf f out.2 = taken.length

section

variable {job : ExtractJob φ} {head taken : List Int} {out : Stores φ × Result φ}
  {rest : Stores φ × List (ExtractJob φ × Result φ)}

theorem rereadOf_cons (r : Result φ) (log : List (ExtractJob φ × Result φ)) :
    rereadOf f ((job, r) :: log) =
      (if job.file = f then r.reread.getD 0 else 0) + rereadOf f log := by
  rw [rereadOf, List.filter_cons]
  by_cases hfile : job.file = f
  · simp [hfile, rereadOf]
  · simp [hfile, rereadOf]

/-- A job of another file. -/
theorem RunTakes.other (hfile : job.file ≠ f) (hrows : out.1.fileRows f = st.fileRows f)
    (h : RunTakes f out.1 taken rest) :
    RunTakes f st taken (rest.1, (job, out.2) :: rest.2) := by
  have hreview : reviewPages f out.1 = reviewPages f st := by
    rw [reviewPages, hrows, reviewPages]
  have hreread : rereadOf f ((job, out.2) :: rest.2) = rereadOf f rest.2 := by
    rw [rereadOf_cons, if_neg hfile, Nat.zero_add]
  constructor
  · exact ⟨h.shrinks.nodup, hreview ▸ h.shrinks.subset, hreview ▸ h.shrinks.review⟩
  · intro p hp
    obtain ⟨x, hx, hsaid⟩ := h.said p hp
    exact ⟨x, List.mem_cons_of_mem _ hx, hsaid⟩
  · intro p hp x hx hxfile
    rcases List.mem_cons.mp hx with rfl | hx
    · exact absurd hxfile hfile
    · exact h.left p hp x hx hxfile
  · rw [hreread]
    exact h.reread_le
  · rw [hreread]
    exact fun hall ↦ h.reread_eq fun x hx ↦ hall x (List.mem_cons_of_mem _ hx)

/-- A job of the file. -/
theorem RunTakes.same (hjob : JobTakes f job.readings st head out) (hfile : job.file = f)
    (h : RunTakes f out.1 taken rest) :
    RunTakes f st (head ++ taken) (rest.1, (job, out.2) :: rest.2) := by
  have hreread : rereadOf f ((job, out.2) :: rest.2) =
      out.2.reread.getD 0 + rereadOf f rest.2 := by
    rw [rereadOf_cons, if_pos hfile]
  constructor
  · exact hjob.shrinks.trans h.shrinks
  · intro p hp
    rcases List.mem_append.mp hp with hp | hp
    · exact ⟨_, List.mem_cons_self, hfile, hjob.said p hp⟩
    · obtain ⟨x, hx, hsaid⟩ := h.said p hp
      exact ⟨x, List.mem_cons_of_mem _ hx, hsaid⟩
  · intro p hp x hx hxfile hreturned
    rcases List.mem_cons.mp hx with rfl | hx
    · -- the page was not taken by this job, which has returned
      obtain ⟨n, hn⟩ := Option.ne_none_iff_exists'.mp hreturned
      obtain ⟨hold, hnot⟩ := (hjob.shrinks.review p).mp ((h.shrinks.review p).mp hp).1
      exact of_not_not fun hne ↦ hnot ((hjob.returned n hn).2 p hold hne)
    · exact h.left p hp x hx hxfile hreturned
  · rw [hreread, List.length_append]
    refine Nat.add_le_add ?_ h.reread_le
    cases hn : out.2.reread with
    | none => exact Nat.zero_le _
    | some n => exact (hjob.returned n hn).1.le
  · intro hall
    obtain ⟨n, hn⟩ := Option.ne_none_iff_exists'.mp (hall _ List.mem_cons_self hfile)
    rw [hreread, List.length_append, h.reread_eq fun x hx ↦ hall x (List.mem_cons_of_mem _ hx), hn,
      Option.getD_some, (hjob.returned n hn).1]

end

theorem Keyed.runJobs (h : Keyed st) (cfg : Settings) (f : FileId) (jobs : List (ExtractJob φ)) :
    ∃ taken, RunTakes f st taken (runJobs cfg jobs st) := by
  induction jobs generalizing st with
  | nil =>
      exact ⟨[], .of_eq fun _ ↦ Iff.rfl, nofun, fun _ _ ↦ nofun, Nat.le_refl 0, fun _ ↦ rfl⟩
  | cons job jobs ih =>
      obtain ⟨head, hjob⟩ := h.extractFile cfg job.file job.lookup job.allPages job.readings
        job.fails
      obtain ⟨taken, hrest⟩ := ih hjob.keyed
      rw [Extraction.runJobs]
      by_cases hfile : job.file = f
      · subst hfile
        exact ⟨_, hrest.same hjob rfl⟩
      · exact ⟨_, hrest.other hfile (hjob.others f fun heq ↦ hfile heq.symm)⟩

/-- **Extraction works off the review.**  After any jobs, for any files and with any failures, the
pages that need review did so before, and none of them could be read by a job that returned; a page
that needs none any more has been read by some job. -/
theorem review_runJobs (h : Keyed st) (cfg : Settings) (jobs : List (ExtractJob φ)) (f : FileId) :
    (∀ p ∈ reviewPages f (runJobs cfg jobs st).1, p ∈ reviewPages f st ∧
      ∀ x ∈ (runJobs cfg jobs st).2, x.1.file = f → x.2.reread ≠ none →
        readingOf x.1.readings p = []) ∧
    (∀ p ∈ reviewPages f st, p ∉ reviewPages f (runJobs cfg jobs st).1 →
      ∃ x ∈ (runJobs cfg jobs st).2, x.1.file = f ∧ readingOf x.1.readings p ≠ []) := by
  obtain ⟨taken, htakes⟩ := h.runJobs cfg f jobs
  refine ⟨fun p hp ↦ ⟨((htakes.shrinks.review p).mp hp).1, htakes.left p hp⟩, fun p hp hnot ↦ ?_⟩
  refine htakes.said p (of_not_not fun htaken ↦ hnot ?_)
  exact (htakes.shrinks.review p).mpr ⟨hp, htaken⟩

/-- **The list goes down by what the jobs report.**  Whatever the jobs are and whatever fails, the
list shows the same files afterwards, none of them with more pages, and each with as many pages
less as the jobs have read again, if they all return. -/
theorem listFiles_runJobs (cfg : Settings) (jobs : List (ExtractJob φ)) {t : Tables φ}
    {user : UserId} {p : ProjectId} {before : List FileResponse} (h : Keyed t.stores)
    (hlist : listFiles t user p = .ok before) :
    ∃ after, listFiles { t with stores := (runJobs cfg jobs t.stores).1 } user p = .ok after ∧
      List.Forall₂ (fun r r' ↦ r'.id = r.id ∧
        r'.pagesNeedingReview + rereadOf r.id (runJobs cfg jobs t.stores).2 ≤
          r.pagesNeedingReview ∧
        (AllReturn r.id (runJobs cfg jobs t.stores).2 →
          r'.pagesNeedingReview + rereadOf r.id (runJobs cfg jobs t.stores).2 =
            r.pagesNeedingReview)) before after := by
  have hafter : listFiles { t with stores := (runJobs cfg jobs t.stores).1 } user p =
      .ok ((t.files.filter (·.projectId = p)).map
        (entryOf (runJobs cfg jobs t.stores).1)) :=
    listFiles_eq_ok.mpr ⟨(listFiles_eq_ok.mp hlist).1, rfl⟩
  refine ⟨_, hafter, ?_⟩
  rw [(listFiles_eq_ok.mp hlist).2, List.forall₂_map_left_iff, List.forall₂_map_right_iff,
    List.forall₂_same]
  intro file _
  obtain ⟨taken, htakes⟩ := h.runJobs cfg file.id jobs
  have hlength := htakes.shrinks.length
  have hle := htakes.reread_le
  refine ⟨rfl, ?_, fun hall ↦ ?_⟩
  · show (reviewPages file.id _).length + rereadOf file.id _ ≤ (reviewPages file.id _).length
    omega
  · have heq := htakes.reread_eq hall
    show (reviewPages file.id _).length + rereadOf file.id _ = (reviewPages file.id _).length
    omega

/-! ## A project -/

/-- One project, with the scanned file. -/
def scanTables : Tables Unit where
  db :=
    { Keys.Db.empty with
      projects := [⟨"p", "t", "Scans", none, .rag, "m"⟩]
      role := fun _ _ ↦ some .member }
  files := [⟨str "f", "p", "scan.pdf", .indexed, 3, "2026-01-01T00:00:00", none⟩]
  schemaOf := fun _ ↦ some (.obj [(str "properties", .obj [(str "vendor", .obj [])])])
  stores := scanned

/-- The entry of the file: its first page needs review. -/
def scanEntry : FileResponse :=
  ⟨str "f", "scan.pdf", .indexed, some 3, 3, "2026-01-01T00:00:00", 1, none⟩

theorem listFiles_scanTables : listFiles scanTables "u" "p" = .ok [scanEntry] := by
  decide

theorem keyed_scanned : Keyed scanned where
  ids := by decide
  indexes g := by
    by_cases hg : g = str "f"
    · subst hg
      exact aligned_scanned.indexes
    · have hnil : scanned.fileRows g = [] := by
        rw [Stores.fileRows, List.filter_eq_nil_iff]
        intro r hr hfile
        have hrow : ∀ r ∈ scanned.rows, r.fileId = str "f" := by decide
        exact hg ((of_decide_eq_true hfile).symm.trans (hrow r hr))
      rw [hnil]
      exact List.nodup_nil

/-- The page can be queued. -/
theorem extractRoute_listed_scan :
    extractRoute scannedSettings scanTables "u" "p" (str "f") false (str "1234abcd") true =
      .ok ⟨str "f", str "f-x1234abcd", false, 1⟩ :=
  (extractRoute_listed scannedSettings (str "1234abcd") true _ (t := scanTables) (by decide)
    listFiles_scanTables List.mem_cons_self).mpr
    ⟨⟨_, _, rfl, rfl⟩, ⟨_, _, rfl, rfl⟩, ⟨by decide, by decide, rfl⟩, by decide⟩

/-- A job that times out, and one that reads the page. -/
def scanJobs : List (ExtractJob Unit) :=
  [⟨str "f", .ok (str "scan.pdf"), false, fun _ ↦ .timeout, fun _ _ ↦ false⟩,
    ⟨str "f", .ok (str "scan.pdf"), false, readAgain, fun _ _ ↦ false⟩]

theorem review_runJobs_scan :
    reviewPages (str "f") (runJobs scannedSettings scanJobs scanned).1 = [] ∧
      ∃ x ∈ (runJobs scannedSettings scanJobs scanned).2, x.1.file = str "f" ∧
        readingOf x.1.readings 1 ≠ [] := by
  have hnil : reviewPages (str "f") (runJobs scannedSettings scanJobs scanned).1 = [] := by
    decide
  refine ⟨hnil, (review_runJobs keyed_scanned scannedSettings scanJobs (str "f")).2 1 ?_ ?_⟩
  · decide
  · rw [hnil]
    exact List.not_mem_nil

/-- No page is left. -/
theorem listFiles_runJobs_scan :
    ∃ r, listFiles { scanTables with stores := (runJobs scannedSettings scanJobs scanned).1 } "u"
      "p" = .ok [r] ∧ r.pagesNeedingReview = 0 := by
  obtain ⟨after, hafter, hpages⟩ := listFiles_runJobs scannedSettings scanJobs (t := scanTables)
    keyed_scanned listFiles_scanTables
  obtain ⟨r, rest, ⟨-, hle, -⟩, hrest, rfl⟩ := List.forall₂_cons_left_iff.mp hpages
  obtain rfl := List.forall₂_nil_left_iff.mp hrest
  have hreread : rereadOf scanEntry.id (runJobs scannedSettings scanJobs scanTables.stores).2 =
      1 := by
    decide
  rw [hreread] at hle
  exact ⟨r, hafter, Nat.le_zero.mp (Nat.le_of_succ_le_succ hle)⟩

end Adapta.Extraction
