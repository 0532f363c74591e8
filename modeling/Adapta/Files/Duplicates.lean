import Adapta.Files.Delete
import Adapta.Files.Rows

/-!
# Duplicate documents

`upload_file` of `adapta/api/v1/files.py` refuses a document whose digest another file of the
project has already, unless that file has failed.  It looks for such a file with a query, and
commits its own row in a later step, and no constraint of the table stands behind the query.

The system is the one of `Adapta.Files.Delete`, with uploads in steps in place of the step that
commits a row: an upload inserts its row in a transaction that it keeps open while it stores and
hashes the content, looks for a duplicate, commits, and enqueues the index job; if that raises it
marks the file as failed, whether or not the job is in the queue.  Documents are told apart by
the digest of their bytes.
-/

namespace Adapta.Files

open Lib

abbrev UploadId := Nat

/-! ## Uploads -/

inductive UploadPc where
  | absent
  /-- The row is flushed, and the content is being stored and hashed. -/
  | storing
  /-- No duplicate was found. -/
  | checked
  /-- The row is committed, and the job is being enqueued. -/
  | committed (f : FileId)
  /-- `enqueue` has raised. -/
  | failing (f : FileId)
  | ended
deriving DecidableEq, Repr

structure Upload where
  /-- `content_sha256`, of the content that is uploaded. -/
  digest : String
  pc : UploadPc
deriving DecidableEq, Repr

/-- The files of a project with their digests, and the uploads. -/
structure Library where
  base : State
  /-- The `content_sha256` of the committed rows. -/
  digests : FileId → Option String
  uploads : UploadId → Upload

inductive LibraryAct where
  /-- `upload_file` has flushed its row. -/
  | upload (i : UploadId) (digest : String)
  /-- The query for a duplicate. -/
  | check (i : UploadId)
  | commit (i : UploadId)
  | enqueue (i : UploadId) (ok : Bool)
  /-- The commit after a failed `enqueue`. -/
  | fail (i : UploadId)
  /-- The request raises before its commit. -/
  | abort (i : UploadId)
  /-- A step of the worker, of a thread or of a deletion. -/
  | base (a : Act)
deriving DecidableEq

namespace Library

def init : Library :=
  { base := .init, digests := fun _ ↦ none, uploads := fun _ ↦ ⟨"", .absent⟩ }

variable (s : Library) (i : UploadId)

/-- The row of `f`. -/
def row (f : FileId) : Option FileRow := s.base.stores.files f

/-- The file is committed and has not failed. -/
def live (f : FileId) : Bool := (s.row f).any fun r ↦ r.status ≠ .failed

/-- The file is committed and has failed. -/
def failed (f : FileId) : Bool := (s.row f).any fun r ↦ r.status = .failed

/-- A file other than `f` has the digest and has not failed: the query of `upload_file`. -/
def duplicate (f : Option FileId) (digest : Option String) : Bool :=
  (List.range s.base.nextId).any fun g ↦
    f ≠ some g && s.digests g = digest && digest.isSome && s.live g

def setPc (pc : UploadPc) : Library :=
  { s with uploads := Function.update s.uploads i { s.uploads i with pc := pc } }

/-- The assignments after a failed `enqueue`, to an object whose row was committed as pending. -/
def failObject : Tracked FileRow :=
  (Tracked.load ⟨.pending, none⟩).assign fun r ↦
    { r with
      status := .failed
      errorMessage := some "The job queue is unavailable; upload the file again." }

/-- One step of the system. -/
def step (c : Config) : LibraryAct → Option Library
  | .upload i digest =>
      if (s.uploads i).pc = .absent then
        some { s with uploads := Function.update s.uploads i ⟨digest, .storing⟩ }
      else none
  | .check i =>
      if (s.uploads i).pc = .storing then
        some (s.setPc i (if s.duplicate none (s.uploads i).digest then .ended else .checked))
      else none
  | .commit i =>
      if (s.uploads i).pc = .checked then
        let f := s.base.nextId
        let base := { s.base with
          stores := s.base.stores.setFile f (some ⟨.pending, none⟩), nextId := f + 1 }
        let digests := Function.update s.digests f (some (s.uploads i).digest)
        some ({ s with base := base, digests := digests }.setPc i (.committed f))
      else none
  | .enqueue i ok =>
      match (s.uploads i).pc with
      | .committed f => some (s.setPc i (if ok then .ended else .failing f))
      | _ => none
  | .fail i =>
      match (s.uploads i).pc with
      | .failing f =>
          -- the `UPDATE` waits for a `DELETE` of the row
          if s.base.rowLocked f then none
          else
            let stores := (s.base.stores.writeFile f failObject).getD s.base.stores
            some ({ s with base := { s.base with stores := stores } }.setPc i .ended)
      | _ => none
  | .abort i =>
      if (s.uploads i).pc = .storing ∨ (s.uploads i).pc = .checked then some (s.setPc i .ended)
      else none
  | .base a =>
      if a = .upload then none
      else (Files.step c s.base a).map fun base ↦ { s with base := base }

end Library

/-- The files of a project, their uploads, jobs and deletions. -/
def library (c : Config) : System Library LibraryAct := ⟨.init, fun s a ↦ s.step c a⟩

/-! ## Statement -/

/-- The failed file, if any, that a step of the index job brings back. -/
def Library.revived (c : Config) (s : Library) : Act → Option FileId
  | .index e =>
      match s.base.worker with
      | some (f, .index j) =>
          match j.step c f s.base.stores (s.base.rowLocked f) e with
          | some x => if s.failed f && (x.1.files f).any (·.status ≠ .failed) then some f else none
          | none => none
      | _ => none
  | _ => none

/-- The condition: when an upload commits, no other file has the digest and has not failed; and
an index job writes over the failure of a file only if there is no such other file. -/
def unrivalled (c : Config) (s : Library) : LibraryAct → Bool
  | .commit i => !s.duplicate none (s.uploads i).digest
  | .base a => (s.revived c a).all fun f ↦ !s.duplicate (some f) (s.digests f)
  | _ => true

def Unrivalled (c : Config) (s : Library) (a : LibraryAct) : Prop := unrivalled c s a = true

instance (c : Config) (s : Library) (a : LibraryAct) : Decidable (Unrivalled c s a) :=
  inferInstanceAs (Decidable (unrivalled c s a = true))

/-! ## What the other steps do to rows -/

variable {c : Config} {f g : FileId} {st st' : Stores} {b b' : State} {a : Act}

theorem ExtractPc.mayApply_files {pc : ExtractPc} (applied : Bool) :
    (pc.mayApply c f st applied).files = st.files := by
  have heffect : ∀ {st'}, pc.effect c f st = .ok st' → st'.files = st.files := by
    intro st' h
    cases pc with
    | upsert p old new held =>
        cases h
        exact Stores.files_indexChunks new
    | commit p old new held =>
        simp only [ExtractPc.effect] at h
        split at h
        · cases h
          rfl
        · cases h
    | lookup | read | select | maxIndex | deleteOld | surplus | returned | raised | cancelled =>
        cases h
        rfl
  cases applied with
  | false => rfl
  | true =>
      cases h : pc.effect c f st with
      | ok st' =>
          simp only [ExtractPc.mayApply, h]
          exact heffect h
      | error e => simp only [ExtractPc.mayApply, h]

/-- Extraction writes no file row. -/
theorem ExtractPc.step_files {pc pc' : ExtractPc} {locked : Bool} {e : ExtractEv}
    (h : pc.step c f st locked e = some (st', pc')) : st'.files = st.files := by
  simp only [ExtractPc.step] at h
  split at h
  · cases h
  cases e with
  | ok =>
      simp only at h
      split at h
      · cases h
      have hm : (pc.mayApply c f st true).files = st.files := mayApply_files true
      split at h
      · next st'' he =>
          cases h
          simpa only [ExtractPc.mayApply, he] using hm
      · cases h
        rfl
  | selected pages =>
      simp only at h
      split at h
      · cases h
        rfl
      · cases h
        rfl
      · cases h
  | read pieces =>
      simp only at h
      split at h
      · cases h
        rfl
      · cases h
  | skipped =>
      simp only at h
      split at h
      · cases h
        rfl
      · cases h
  | raised message applied =>
      cases h
      exact mayApply_files _
  | cancel applied =>
      cases h
      exact mayApply_files _

/-- A step of the system of jobs and deletions leaves a row as it is or deletes it, unless it is
the row of the index job. -/
theorem step_row (h : Files.step c b a = some b') (ha : a ≠ .upload) :
    b'.nextId = b.nextId ∧ ∀ g, b'.stores.files g = b.stores.files g ∨ b'.stores.files g = none ∨
      ∃ e j x, a = .index e ∧ b.worker = some (g, .index j) ∧
        j.step c g b.stores (b.rowLocked g) e = some x ∧ b'.stores = x.1 ∧
        b.stores.files g ≠ none := by
  cases Move.of_step h with
  | upload => exact absurd rfl ha
  | startIndex | startExtract | next | crash | delete | deleteError =>
      exact ⟨rfl, fun g ↦ .inl rfl⟩
  | @index f j j' st e hw hj =>
      have hwrites := IndexJob.step_writesOnly hj
      refine ⟨State.jobMove_nextId .., ?_⟩
      intro g
      rw [State.jobMove_stores]
      by_cases hg : g = f
      · subst hg
        by_cases hnone : b.stores.files g = none
        · exact .inr (.inl (hwrites.none hnone))
        · exact .inr (.inr ⟨e, j, _, rfl, hw, hj, rfl, hnone⟩)
      · exact .inl (hwrites.ne g hg)
  | extract hw hpc =>
      refine ⟨State.jobMove_nextId .., fun g ↦ .inl ?_⟩
      rw [State.jobMove_stores, ExtractPc.step_files hpc]
  | @thread n t ht => exact ⟨rfl, fun g ↦ .inl (congrFun (Thread.run_files t) g)⟩
  | @deleteOk n f pc _ hd hn =>
      obtain ⟨hid, -, -, hstores⟩ := State.deleteOk_effect hn
      refine ⟨hid, ?_⟩
      intro g
      rcases hstores with hstores | ⟨ids, hstores⟩ | hstores
      · exact .inl (by rw [hstores])
      · exact .inl (by rw [hstores]; rfl)
      · rw [hstores]
        by_cases hg : g = f
        · subst hg
          exact .inr (.inl (Function.update_self ..))
        · exact .inl (Function.update_of_ne hg _ _)

/-! ## The invariant -/

variable {s s' : Library} {i : UploadId} {x : LibraryAct} {d : String}

/-- Ids are used once, and no two files that have not failed have one digest. -/
structure Distinct (s : Library) : Prop where
  bound : ∀ f, s.row f ≠ none → f < s.base.nextId
  unique : ∀ f g d, s.live f = true → s.live g = true → s.digests f = some d →
    s.digests g = some d → f = g

theorem Library.live_iff : s.live f = true ↔ ∃ r, s.row f = some r ∧ r.status ≠ .failed := by
  rw [live, Option.any_eq_true_iff_get]
  constructor
  · rintro ⟨h, hr⟩
    exact ⟨_, Option.some_get h |>.symm, by simpa using hr⟩
  · rintro ⟨r, hr, hne⟩
    simp [hr, hne]

/-- The query finds every rival. -/
theorem Distinct.not_live (h : Distinct s) {skip : Option FileId}
    (hq : s.duplicate skip (some d) = false) (hg : skip ≠ some g) (hd : s.digests g = some d) :
    s.live g = false := by
  by_contra hlive
  rw [Bool.not_eq_false] at hlive
  obtain ⟨r, hr, -⟩ := Library.live_iff.mp hlive
  have hlt := h.bound g (by rw [hr]; simp)
  rw [Library.duplicate, List.any_eq_false] at hq
  apply hq g (List.mem_range.mpr hlt)
  simp [hg, hd, hlive]

namespace Distinct

protected theorem init : Distinct .init where
  bound f hf := absurd rfl hf
  unique f g d hf := by
    rw [Library.live_iff] at hf
    obtain ⟨r, hr, -⟩ := hf
    cases hr

/-- Rows are left or deleted, or fail; the digests stay. -/
theorem of_shrink (h : Distinct s) (hn : s'.base.nextId = s.base.nextId)
    (hd : s'.digests = s.digests) (hrow : ∀ f, s.row f = none → s'.row f = none)
    (hlive : ∀ f, s'.live f = true → s.live f = true) : Distinct s' where
  bound f hf := by
    rw [hn]
    exact h.bound f fun hnone ↦ hf (hrow f hnone)
  unique f g d hf hg hfd hgd := by
    rw [hd] at hfd hgd
    exact h.unique f g d (hlive f hf) (hlive g hg) hfd hgd

theorem setPc {pc : UploadPc} (h : Distinct s) : Distinct (s.setPc i pc) :=
  h.of_shrink rfl rfl (fun _ ↦ id) fun _ ↦ id

theorem commit (h : Distinct s) (hg : s.duplicate none (some (s.uploads i).digest) = false) :
    let f := s.base.nextId
    Distinct (Library.setPc
      { s with
        base := { s.base with
          stores := s.base.stores.setFile f (some ⟨.pending, none⟩), nextId := f + 1 }
        digests := Function.update s.digests f (some (s.uploads i).digest) } i (.committed f)) := by
  intro f
  have hrow : ∀ g, g ≠ f → (s.base.stores.setFile f (some ⟨.pending, none⟩)).files g =
      s.base.stores.files g := fun g hne ↦ Function.update_of_ne hne _ _
  constructor
  · intro g hg'
    by_cases hgf : g = f
    · rw [hgf]
      exact Nat.lt_succ_self f
    · have hold : s.row g ≠ none := by
        intro hnone
        exact hg' ((hrow g hgf).trans hnone)
      exact Nat.lt_succ_of_lt (h.bound g hold)
  · intro g g' d hlive hlive' hd hd'
    -- what was live before has another digest than the new file
    have hother : ∀ k, k ≠ f → (Library.setPc { s with
        base := { s.base with
          stores := s.base.stores.setFile f (some ⟨.pending, none⟩), nextId := f + 1 }
        digests := Function.update s.digests f (some (s.uploads i).digest) } i
          (.committed f)).live k = true → s.live k = true := by
      intro k hk hl
      rw [Library.live_iff] at hl ⊢
      obtain ⟨r, hr, hne⟩ := hl
      exact ⟨r, (hrow k hk).symm.trans hr, hne⟩
    have hold : ∀ k, k ≠ f → Function.update s.digests f (some (s.uploads i).digest) k =
        s.digests k := fun k hk ↦ Function.update_of_ne hk _ _
    have hclash : ∀ k, k ≠ f → s.live k = true → s.digests k = some (s.uploads i).digest →
        False := by
      intro k hk hl hdk
      rw [h.not_live hg (by simp) hdk] at hl
      cases hl
    replace hd : Function.update s.digests f (some (s.uploads i).digest) g = some d := hd
    replace hd' : Function.update s.digests f (some (s.uploads i).digest) g' = some d := hd'
    by_cases hgf : g = f
    · by_cases hgf' : g' = f
      · rw [hgf, hgf']
      · rw [hgf, Function.update_self] at hd
        rw [hold g' hgf', ← hd] at hd'
        exact (hclash g' hgf' (hother g' hgf' hlive') hd').elim
    · by_cases hgf' : g' = f
      · rw [hgf', Function.update_self] at hd'
        rw [hold g hgf, ← hd'] at hd
        exact (hclash g hgf (hother g hgf hlive) hd).elim
      · rw [hold g hgf] at hd
        rw [hold g' hgf'] at hd'
        exact h.unique g g' d (hother g hgf hlive) (hother g' hgf' hlive') hd hd'

/-- An upload marks its file as failed. -/
theorem fail (h : Distinct s) : Distinct (Library.setPc
    { s with base := { s.base with
      stores := (s.base.stores.writeFile f Library.failObject).getD s.base.stores } } i .ended) := by
  have hfiles : ∀ g, (((s.base.stores.writeFile f Library.failObject).getD s.base.stores).files g =
        s.base.stores.files g) ∨ ∃ r r', s.base.stores.files g = some r ∧
      ((s.base.stores.writeFile f Library.failObject).getD s.base.stores).files g = some r' ∧
        r'.status = .failed := by
    intro g
    cases hr : s.base.stores.files f with
    | none =>
        have hw : s.base.stores.writeFile f Library.failObject = none := by
          rw [Stores.writeFile, if_neg (by decide), hr]
          rfl
        rw [hw]
        exact .inl rfl
    | some r =>
        have hw : s.base.stores.writeFile f Library.failObject =
            some (s.base.stores.setFile f (some (r.flush Library.failObject))) := by
          rw [Stores.writeFile, if_neg (by decide), hr]
          rfl
        rw [hw, Option.getD_some]
        by_cases hg : g = f
        · subst hg
          exact .inr ⟨r, _, hr, Function.update_self .., rfl⟩
        · exact .inl (Function.update_of_ne hg _ _)
  refine h.of_shrink rfl rfl ?_ ?_
  · intro g hnone
    rcases hfiles g with heq | ⟨r, r', hr, -⟩
    · exact heq.trans hnone
    · exact absurd (hr.symm.trans hnone) (by simp)
  · intro g hlive
    rw [Library.live_iff] at hlive ⊢
    obtain ⟨r, hr, hne⟩ := hlive
    rcases hfiles g with heq | ⟨r₀, r', -, hr', hfailed⟩
    · exact ⟨r, heq.symm.trans hr, hne⟩
    · cases hr.symm.trans hr'
      exact absurd hfailed hne

/-- A step of the worker, of a thread or of a deletion. -/
theorem base (h : Distinct s) (ha : a ≠ .upload) (hn : Files.step c s.base a = some b')
    (hg : ∀ f, s.revived c a = some f → s.duplicate (some f) (s.digests f) = false) :
    Distinct { s with base := b' } := by
  obtain ⟨hid, hrow⟩ := step_row hn ha
  -- a file that has not failed now had not failed before, or is the one brought back
  have hlive : ∀ f, Library.live { s with base := b' } f = true →
      s.live f = true ∨ s.revived c a = some f := by
    intro f hf
    obtain ⟨r, hr, hne⟩ := Library.live_iff.mp hf
    replace hr : b'.stores.files f = some r := hr
    rcases hrow f with heq | hnone | ⟨e, j, y, rfl, hw, hy, hst, hsome⟩
    · exact .inl (Library.live_iff.mpr ⟨r, heq.symm.trans hr, hne⟩)
    · rw [hnone] at hr
      cases hr
    · obtain ⟨r₀, hr₀⟩ := Option.ne_none_iff_exists'.mp hsome
      by_cases hfailed : r₀.status = .failed
      · apply Or.inr
        have hbefore : s.failed f = true := by
          have hrow₀ : s.row f = some r₀ := hr₀
          simp [Library.failed, hrow₀, hfailed]
        have hafter : (y.1.files f).any (·.status ≠ .failed) = true := by
          rw [← hst, hr]
          simpa using hne
        simp only [Library.revived, hw, hy]
        rw [if_pos (by rw [hbefore, hafter]; rfl)]
      · exact .inl (Library.live_iff.mpr ⟨r₀, hr₀, hfailed⟩)
  have hrival : ∀ f g d, s.revived c a = some f → s.live g = true → s.digests f = some d →
      s.digests g = some d → f = g := by
    intro f g d hf hl hfd hgd
    by_contra hne
    have hq := hg f hf
    rw [hfd] at hq
    rw [h.not_live hq (by simpa using hne) hgd] at hl
    cases hl
  constructor
  · intro f hf
    have hold : s.row f ≠ none := by
      intro hnone
      rcases hrow f with heq | hnone' | ⟨e, j, y, -, -, -, -, hsome⟩
      · exact hf (heq.trans hnone)
      · exact hf hnone'
      · exact hsome hnone
    have hlt := h.bound f hold
    show f < b'.nextId
    rw [hid]
    exact hlt
  · intro f g d hf hg' hfd hgd
    rcases hlive f hf with hf | hf
    · rcases hlive g hg' with hg' | hg'
      · exact h.unique f g d hf hg' hfd hgd
      · exact (hrival g f d hg' hf hgd hfd).symm
    · rcases hlive g hg' with hg' | hg'
      · exact hrival f g d hf hg' hfd hgd
      · exact Option.some.inj (hf.symm.trans hg')

theorem step (h : Distinct s) (hg : Unrivalled c s x) (hn : s.step c x = some s') :
    Distinct s' := by
  cases x with
  | upload i digest =>
      simp only [Library.step, Option.ite_none_right_eq_some, Option.some.injEq] at hn
      obtain ⟨-, rfl⟩ := hn
      exact h.of_shrink rfl rfl (fun _ ↦ id) fun _ ↦ id
  | check i =>
      simp only [Library.step, Option.ite_none_right_eq_some, Option.some.injEq] at hn
      obtain ⟨-, rfl⟩ := hn
      exact h.setPc
  | commit i =>
      simp only [Library.step, Option.ite_none_right_eq_some, Option.some.injEq] at hn
      obtain ⟨-, rfl⟩ := hn
      simp only [Unrivalled, unrivalled, Bool.not_eq_true'] at hg
      exact h.commit hg
  | enqueue i ok =>
      simp only [Library.step] at hn
      split at hn
      · cases hn
        exact h.setPc
      · cases hn
  | fail i =>
      simp only [Library.step] at hn
      split at hn
      · split at hn
        · cases hn
        · cases hn
          exact h.fail
      · cases hn
  | abort i =>
      simp only [Library.step, Option.ite_none_right_eq_some, Option.some.injEq] at hn
      obtain ⟨-, rfl⟩ := hn
      exact h.setPc
  | base a =>
      simp only [Library.step] at hn
      split at hn
      · cases hn
      · next ha =>
          obtain ⟨b', hb, rfl⟩ := Option.map_eq_some_iff.mp hn
          apply h.base ha hb
          intro f hf
          simp only [Unrivalled, unrivalled, hf, Option.all_some, Bool.not_eq_true'] at hg
          exact hg

end Distinct

/-- **No duplicate documents.**  In every run in which an upload commits, and an index job brings
back a failed file, only when no other file with the digest has not failed, there is in every
state at most one file with a given digest that has not failed. -/
theorem files_distinct (c : Config) (s : Library) (h : (library c).Reach (Unrivalled c) s)
    (f g : FileId) (r r' : FileRow) (d : String) (hf : s.row f = some r) (hg : s.row g = some r')
    (hr : r.status ≠ .failed) (hr' : r'.status ≠ .failed) (hd : s.digests f = some d)
    (hd' : s.digests g = some d) : f = g := by
  have hinv : Distinct s := h.invariant Distinct.init fun _ _ _ hs hg hn ↦ hs.step hg hn
  exact hinv.unique f g d (Library.live_iff.mpr ⟨r, hf, hr⟩) (Library.live_iff.mpr ⟨r', hg, hr'⟩)
    hd hd'

/-! ## Runs -/

/-- An upload that meets no other, up to its job. -/
def uploadRun (i : UploadId) (digest : String) : List LibraryAct :=
  [.upload i digest, .check i, .commit i, .enqueue i true]

/-- A file fails, since its job cannot be enqueued, and its content is uploaded again. -/
def uploadAgain : List LibraryAct :=
  ([.upload 0 "sha-1", .check 0, .commit 0, .enqueue 0 false, .fail 0] : List LibraryAct) ++
    uploadRun 1 "sha-1" ++ uploadRun 2 "sha-2"

/-- `files_distinct` at the second file of one content: it is the only one not failed. -/
theorem files_distinct_uploadAgain : ∃ s, (library .sample).Reach (Unrivalled .sample) s ∧
    s.digests 0 = some "sha-1" ∧ s.digests 1 = some "sha-1" ∧ s.live 1 = true ∧
    ∀ f, s.live f = true → s.digests f = some "sha-1" → f = 1 := by
  obtain ⟨s, hs, hr⟩ := System.Reach.of_exec (S := library .sample) (g := Unrivalled .sample)
    (l := uploadAgain) (f := fun s ↦ (s.digests 0, s.digests 1, s.row 1))
    (b := (some "sha-1", some "sha-1", some ⟨.pending, none⟩)) (by decide)
  simp only [Prod.mk.injEq] at hr
  obtain ⟨h0, h1, hrow⟩ := hr
  refine ⟨s, hs, h0, h1, Library.live_iff.mpr ⟨_, hrow, by decide⟩, ?_⟩
  intro f hf hd
  obtain ⟨r, hr, hne⟩ := Library.live_iff.mp hf
  exact files_distinct .sample s hs f 1 r _ "sha-1" hr hrow hne (by decide) hd h1

/-- Two uploads of one content, each of which looks for a duplicate before the other commits. -/
def overlappingUploads : List LibraryAct :=
  [.upload 0 "sha-1", .upload 1 "sha-1", .check 0, .check 1, .commit 0, .commit 1]

/-- Both files are pending, with one digest. -/
theorem duplicate_of_overlappingUploads : ∃ s, (library .sample).Reachable s ∧
    s.row 0 = some ⟨.pending, none⟩ ∧ s.digests 0 = some "sha-1" ∧
    s.row 1 = some ⟨.pending, none⟩ ∧ s.digests 1 = some "sha-1" := by
  obtain ⟨s, hs, hr⟩ := System.Reach.of_exec (S := library .sample) (g := fun _ _ ↦ True)
    (l := overlappingUploads) (f := fun s ↦ (s.row 0, s.digests 0, s.row 1, s.digests 1))
    (b := (some ⟨.pending, none⟩, some "sha-1", some ⟨.pending, none⟩, some "sha-1"))
    (by decide)
  simp only [Prod.mk.injEq] at hr
  exact ⟨s, hs, hr⟩

end Adapta.Files
