import Adapta.Adapters.Life
import Adapta.Files.Delete
import Adapta.Files.Rows

/-!
# Deleting a project

`delete_project` of `adapta/api/v1/projects.py` deletes the project's row, and Postgres deletes its
files, their chunks and its `collections` row with it.  The vectors are in Chroma, in a collection
named for the project, which the handler removes first: of a `rag` project.  A `finetune` project
may index documents as well, by the same job, and its collection stays.

The system is the one of `Adapta.Files.Delete`, for one project, with any number of requests that
delete it.  `no_collection_iff` says which projects leave no collection behind.
-/

namespace Adapta.Projects

open Lib Adapters Files

/-! ## The system -/

/-- The awaits of `delete_project`, after the project and the caller's role have been read. -/
inductive RemovePc where
  /-- `delete_collection`. -/
  | clean
  /-- The `DELETE` of the project and its commit. -/
  | commit
  | succeeded
  | failed
deriving DecidableEq, Repr

/-- The request has not ended. -/
def RemovePc.underWay : RemovePc → Bool
  | .clean | .commit => true
  | .succeeded | .failed => false

structure State where
  base : Files.State
  /-- The project's row is there. -/
  present : Bool
  removals : List RemovePc

def State.init : State := { base := .init, present := true, removals := [] }

inductive Act where
  /-- A step of the files and their jobs. -/
  | base (a : Files.Act)
  /-- `delete_project` finds the project, and its caller is an admin. -/
  | remove
  /-- `delete_collection` returns; if Chroma fails, the error is swallowed. -/
  | clean (n : Nat) (ok : Bool)
  | commit (n : Nat)
  | raise (n : Nat)
deriving DecidableEq

/-- The rows that are left when the project's is deleted: none of its own. -/
def cascade (st : Stores) : Stores :=
  { st with files := fun _ ↦ none, chunks := fun _ ↦ [], collection := false }

def State.setPc (s : State) (n : Nat) (pc : RemovePc) : State :=
  { s with removals := s.removals.set n pc }

def State.setStores (s : State) (st : Stores) : State :=
  { s with base := { s.base with stores := st } }

/-- One step of the system. -/
def step (c : Files.Config) (type : ProjectType) (s : State) : Act → Option State
  | .base a =>
      -- an upload finds its project
      if a = .upload ∧ ¬s.present then none
      else (Files.step c s.base a).map fun b ↦ { s with base := b }
  | .remove =>
      if s.present then
        some { s with removals := s.removals ++ [if type = .rag then .clean else .commit] }
      else none
  | .clean n ok =>
      if s.removals[n]? = some .clean then
        let st := if ok then { s.base.stores with chroma := none } else s.base.stores
        some ((s.setStores st).setPc n .commit)
      else none
  | .commit n =>
      -- the `DELETE` waits for those of files that are under way
      if s.removals[n]? = some .commit ∧ ∀ x ∈ s.base.deletes, x.2 ≠ .commit then
        some { (s.setStores (cascade s.base.stores)).setPc n .succeeded with present := false }
      else none
  | .raise n =>
      if s.removals[n]?.any RemovePc.underWay then some (s.setPc n .failed) else none

/-! ## Statement -/

/-- The project's collection is in Chroma. -/
def State.hasCollection (s : State) : Bool := s.base.stores.chroma.isSome

/-- What is remembered of each deletion: whether there was a collection when it was requested. -/
def observe (s : State) : Act → (Nat → Bool) → Nat → Bool
  | .remove, found => Function.update found s.removals.length s.hasCollection
  | _, found => found

/-- A project of the type, its files and its deletion. -/
def system (c : Files.Config) (type : ProjectType) : System (State × (Nat → Bool)) Act :=
  System.ghost ⟨.init, step c type⟩ (fun _ ↦ false) observe

/-- The step is one of a job, or of a thread that a job has left. -/
def isJob : Files.Act → Bool
  | .startIndex _ | .startExtract _ | .index _ | .extract _ | .thread _ => true
  | .upload | .next | .crash | .delete _ | .deleteOk _ | .deleteError _ => false

/-- While the project is being deleted, no job is in flight and Chroma can be reached. -/
def calm (x : State × (Nat → Bool)) : Act → Bool
  | .base a => !(x.1.removals.any RemovePc.underWay && isJob a)
  | .remove => x.1.base.worker = none && x.1.base.threads = []
  | .clean _ ok => ok
  | _ => true

def Calm (x : State × (Nat → Bool)) (a : Act) : Prop := calm x a = true

instance (x : State × (Nat → Bool)) (a : Act) : Decidable (Calm x a) :=
  inferInstanceAs (Decidable (calm x a = true))

/-! ## Files that are gone -/

variable {c : Files.Config} {type : ProjectType} {b b' : Files.State} {a : Files.Act} {f : FileId}

theorem isSome_chroma_deleteOk {n : Nat} {pc : DeletePc} (h : b.deleteOk n f pc = some b') :
    b'.stores.chroma.isSome = b.stores.chroma.isSome ∧
      ∀ g, b.stores.files g = none → b'.stores.files g = none := by
  obtain ⟨-, -, -, hstores | ⟨ids, hstores⟩ | hstores⟩ := State.deleteOk_effect h
  · rw [hstores]
    exact ⟨rfl, fun _ ↦ id⟩
  · rw [hstores]
    exact ⟨Option.isSome_map, fun _ ↦ id⟩
  · rw [hstores]
    refine ⟨rfl, ?_⟩
    intro g hg
    by_cases hgf : g = f
    · subst hgf
      exact Function.update_self ..
    · exact (Function.update_of_ne hgf _ _).trans hg

/-- A step of no job, with none in flight, neither makes nor removes a collection. -/
theorem step_of_not_job (h : Files.step c b a = some b') (ha : isJob a = false)
    (hw : b.worker = none) (ht : b.threads = []) :
    b'.worker = none ∧ b'.threads = [] ∧ b'.stores.chroma.isSome = b.stores.chroma.isSome := by
  cases Move.of_step h with
  | startIndex | startExtract | index | extract | thread => cases ha
  | upload | delete | deleteError => exact ⟨hw, ht, rfl⟩
  | next => exact ⟨rfl, ht, rfl⟩
  | crash => exact ⟨rfl, rfl, rfl⟩
  | deleteOk hd hn =>
      obtain ⟨-, hw', ht', -⟩ := State.deleteOk_effect hn
      exact ⟨hw'.trans hw, ht'.trans ht, (isSome_chroma_deleteOk hn).1⟩

/-- The job has not found a row. -/
def Inert : Job → Prop
  | .index j => j.active = false
  | .extract pc => pc = .lookup ∨ pc.isOver = true

/-- There are no files, and no job has found one. -/
structure Gone (b : Files.State) : Prop where
  files : ∀ f, b.stores.files f = none
  worker : ∀ f j, b.worker = some (f, j) → Inert j
  threads : b.threads = []

theorem thread_of_inactive {j : IndexJob} (hj : j.active = false) : j.thread f = none := by
  cases j with
  | attempt final pc =>
      cases pc <;> cases hj
      rfl
  | failCommit | failGet | failDelete => cases hj
  | failSelect | returned | raised | cancelled => rfl

/-- An extraction that has found no file does nothing. -/
theorem extract_of_lookup {st st' : Stores} {pc : ExtractPc} {locked : Bool} {e : ExtractEv}
    (h : ExtractPc.lookup.step c f st locked e = some (st', pc)) (hf : st.files f = none) :
    st' = st ∧ (pc = .lookup ∨ pc.isOver = true) := by
  have hmay : ∀ applied, ExtractPc.lookup.mayApply c f st applied = st := by
    intro applied
    cases applied with
    | false => rfl
    | true => rfl
  cases e with
  | ok => cases h
  | selected pages =>
      cases pages with
      | nil =>
          simp only [ExtractPc.step, ExtractPc.isOver, hf] at h
          cases h
          exact ⟨rfl, .inr rfl⟩
      | cons page rest =>
          simp only [ExtractPc.step, ExtractPc.isOver, hf] at h
          cases h
          exact ⟨rfl, .inr rfl⟩
  | read | skipped => cases h
  | raised message applied =>
      cases h
      exact ⟨hmay _, .inr rfl⟩
  | cancel applied =>
      cases h
      exact ⟨hmay _, .inr rfl⟩

/-- A job that leaves no thread goes on without a row. -/
theorem Gone.jobMove {j j' : Job} {cancels : Bool} (h : Gone b) (hthread : j.thread f = none)
    (hj : Inert j') :
    Gone (b.jobMove f j (b.stores, j') cancels) ∧
      (b.jobMove f j (b.stores, j') cancels).stores.chroma.isSome = b.stores.chroma.isSome := by
  refine ⟨⟨?_, ?_, ?_⟩, ?_⟩
  · intro g
    rw [State.jobMove_stores]
    exact h.files g
  · intro g k hk
    rw [State.jobMove_worker] at hk
    cases hk
    exact hj
  · cases cancels with
    | false => exact h.threads
    | true =>
        simp only [State.jobMove, State.leaveThread, hthread, if_true]
        exact h.threads
  · rw [State.jobMove_stores]

/-- Without files, the jobs that are still taken from the queue find nothing to do. -/
theorem Gone.step (h : Gone b) (hn : Files.step c b a = some b') (ha : a ≠ .upload) :
    Gone b' ∧ b'.stores.chroma.isSome = b.stores.chroma.isSome := by
  cases Move.of_step hn with
  | upload => exact absurd rfl ha
  | startIndex =>
      refine ⟨⟨h.files, ?_, h.threads⟩, rfl⟩
      intro g j hj
      cases hj
      exact rfl
  | startExtract =>
      refine ⟨⟨h.files, ?_, h.threads⟩, rfl⟩
      intro g j hj
      cases hj
      exact .inl rfl
  | next => exact ⟨⟨h.files, fun g j hj ↦ (by cases hj), h.threads⟩, rfl⟩
  | crash => exact ⟨⟨h.files, fun g j hj ↦ (by cases hj), rfl⟩, rfl⟩
  | @index f j j' st e hw hj =>
      have hold : j.active = false := h.worker f _ hw
      obtain ⟨rfl, hactive⟩ := IndexJob.step_of_inactive hold hj
      refine h.jobMove (thread_of_inactive hold) ?_
      show j'.active = false
      by_contra hne
      obtain ⟨r, hr, -⟩ := hactive (by simpa using hne)
      rw [h.files f] at hr
      cases hr
  | @extract f pc pc' st e hw hpc =>
      have hold : pc = .lookup ∨ pc.isOver = true := h.worker f _ hw
      rcases hold with rfl | hover
      · obtain ⟨rfl, hnew⟩ := extract_of_lookup hpc (h.files f)
        exact h.jobMove rfl hnew
      · simp only [ExtractPc.step, hover, if_true] at hpc
        cases hpc
  | thread ht =>
      rw [h.threads] at ht
      cases ht
  | @delete f hf =>
      rw [h.files f] at hf
      cases hf
  | deleteOk hd hs' =>
      obtain ⟨-, hw, ht, -⟩ := State.deleteOk_effect hs'
      obtain ⟨hchroma, hfiles⟩ := isSome_chroma_deleteOk hs'
      exact ⟨⟨fun g ↦ hfiles g (h.files g), fun g j hj ↦ h.worker g j (hw ▸ hj),
        ht.trans h.threads⟩, hchroma⟩
  | deleteError => exact ⟨⟨h.files, h.worker, h.threads⟩, rfl⟩

/-! ## The invariant -/

variable {s s' : State} {found : Nat → Bool} {x : Act}

/-- The request has done with Chroma. -/
def RemovePc.cleaned : RemovePc → Bool
  | .commit | .succeeded => true
  | .clean | .failed => false

structure Inv (type : ProjectType) (s : State) (found : Nat → Bool) : Prop where
  /-- No job is in flight while a deletion is under way. -/
  quiet : s.removals.any RemovePc.underWay = true → s.base.worker = none ∧ s.base.threads = []
  gone : s.present = false → Gone s.base
  succeeded : .succeeded ∈ s.removals → s.present = false
  /-- A collection that is there after the cleaning is that of a `finetune` project. -/
  cleaned : ∀ (n : Nat) pc, s.removals[n]? = some pc → pc.cleaned = true →
    (s.hasCollection = true ↔ type ≠ .rag ∧ found n = true)
  clean : .clean ∈ s.removals → type = .rag

namespace Inv

protected theorem init : Inv type .init fun _ ↦ false where
  quiet h := by cases h
  gone h := by cases h
  succeeded h := by cases h
  cleaned n pc h := by cases h
  clean h := by cases h

/-- A step of the files: of no job while a deletion is under way, and of nothing afterwards. -/
theorem base (h : Inv type s found) (hn : Files.step c s.base a = some b')
    (ha : ¬(a = .upload ∧ ¬s.present))
    (hg : s.removals.any RemovePc.underWay = true → isJob a = false) :
    Inv type { s with base := b' } found := by
  have hkeep : s.removals.any RemovePc.cleaned = true →
      b'.stores.chroma.isSome = s.base.stores.chroma.isSome := by
    intro hany
    by_cases hway : s.removals.any RemovePc.underWay = true
    · obtain ⟨hw, ht⟩ := h.quiet hway
      exact (step_of_not_job hn (hg hway) hw ht).2.2
    · -- only deletions that have succeeded are left
      have hsucceeded : .succeeded ∈ s.removals := by
        obtain ⟨pc, hpc, hcleaned⟩ := List.any_eq_true.mp hany
        cases pc with
        | commit => exact absurd (List.any_eq_true.mpr ⟨_, hpc, rfl⟩) hway
        | succeeded => exact hpc
        | clean | failed => cases hcleaned
      have hpresent := h.succeeded hsucceeded
      refine ((h.gone hpresent).step hn ?_).2
      intro hup
      exact ha ⟨hup, by simp [hpresent]⟩
  refine ⟨?_, ?_, h.succeeded, ?_, h.clean⟩
  · intro hway
    obtain ⟨hw, ht⟩ := h.quiet hway
    obtain ⟨hw', ht', -⟩ := step_of_not_job hn (hg hway) hw ht
    exact ⟨hw', ht'⟩
  · intro hpresent
    exact ((h.gone hpresent).step hn fun hup ↦ ha ⟨hup, by simpa using hpresent⟩).1
  · intro n pc hpc hcleaned
    have hsame := hkeep (List.any_eq_true.mpr ⟨pc, List.mem_of_getElem? hpc, hcleaned⟩)
    rw [← h.cleaned n pc hpc hcleaned]
    show b'.stores.chroma.isSome = true ↔ s.base.stores.chroma.isSome = true
    rw [hsame]

theorem remove (h : Inv type s found) (hpresent : s.present = true)
    (hw : s.base.worker = none) (ht : s.base.threads = []) :
    Inv type { s with removals := s.removals ++ [if type = .rag then .clean else .commit] }
      (Function.update found s.removals.length s.hasCollection) := by
  refine ⟨fun _ ↦ ⟨hw, ht⟩, ?_, ?_, ?_, ?_⟩
  · intro hp
    rw [hpresent] at hp
    cases hp
  · intro hmem
    rcases List.mem_append.mp hmem with hmem | hmem
    · exact h.succeeded hmem
    · rw [List.mem_singleton] at hmem
      split at hmem
      · cases hmem
      · cases hmem
  · intro n pc hpc hcleaned
    replace hpc : (s.removals ++ [if type = .rag then .clean else .commit])[n]? = some pc := hpc
    rw [List.getElem?_append] at hpc
    split at hpc
    · next hlt =>
        rw [Function.update_of_ne (Nat.ne_of_lt hlt)]
        exact h.cleaned n pc hpc hcleaned
    · next hge =>
        rw [List.getElem?_singleton] at hpc
        split at hpc
        · next hzero =>
            obtain rfl : n = s.removals.length := by omega
            rw [Function.update_self]
            have hrag : type ≠ .rag := by
              rintro rfl
              cases hpc
              cases hcleaned
            exact ⟨fun hc ↦ ⟨hrag, hc⟩, fun hc ↦ hc.2⟩
        · cases hpc
  · intro hmem
    rcases List.mem_append.mp hmem with hmem | hmem
    · exact h.clean hmem
    · rw [List.mem_singleton] at hmem
      split at hmem
      · next hrag => exact hrag
      · cases hmem

/-- The request `n` goes on, and the collection is the same, or removed. -/
theorem setPc {n : Nat} {pc pc' : RemovePc} (h : Inv type s found)
    (hn : s.removals[n]? = some pc) (hway : pc.underWay = true)
    (hw : s'.base.worker = s.base.worker) (ht : s'.base.threads = s.base.threads)
    (hr : s'.removals = s.removals.set n pc') (hgone : s'.present = false → Gone s'.base)
    (hsucceeded : s.present = false ∨ pc' = .succeeded → s'.present = false)
    (hclean : pc' ≠ .clean)
    (hcleaned : ∀ m pc'', (m = n → pc' = pc'') → (m ≠ n → s.removals[m]? = some pc'') →
      pc''.cleaned = true → (s'.hasCollection = true ↔ type ≠ .rag ∧ found m = true)) :
    Inv type s' found := by
  have hquiet := h.quiet (List.any_eq_true.mpr ⟨pc, List.mem_of_getElem? hn, hway⟩)
  have hmem : ∀ pc'', pc'' ∈ s'.removals → pc'' ∈ s.removals ∨ pc'' = pc' := by
    intro pc'' hpc
    rw [hr] at hpc
    exact List.mem_or_eq_of_mem_set hpc
  refine ⟨fun _ ↦ ⟨hw.trans hquiet.1, ht.trans hquiet.2⟩, hgone, ?_, ?_, ?_⟩
  · intro hs
    rcases hmem _ hs with hs | hs
    · exact hsucceeded (.inl (h.succeeded hs))
    · exact hsucceeded (.inr hs.symm)
  · intro m pc'' hm hc
    rw [hr, List.getElem?_set] at hm
    split at hm
    · next heq =>
        subst heq
        split at hm
        · cases hm
          exact hcleaned n _ (fun _ ↦ rfl) (fun hne ↦ absurd rfl hne) hc
        · cases hm
    · next hne => exact hcleaned m pc'' (fun heq ↦ absurd heq.symm hne) (fun _ ↦ hm) hc
  · intro hc
    rcases hmem _ hc with hc | hc
    · exact h.clean hc
    · exact absurd hc.symm hclean

theorem step (h : Inv type s found) (hg : Calm (s, found) x) (hn : step c type s x = some s') :
    Inv type s' (observe s x found) := by
  cases x with
  | base a =>
      simp only [Projects.step] at hn
      split at hn
      · cases hn
      · next ha =>
          obtain ⟨b, hb, rfl⟩ := Option.map_eq_some_iff.mp hn
          apply h.base hb ha
          intro hway
          simpa [Calm, calm, hway] using hg
  | remove =>
      simp only [Projects.step, Option.ite_none_right_eq_some, Option.some.injEq] at hn
      obtain ⟨hpresent, rfl⟩ := hn
      simp only [Calm, calm, Bool.and_eq_true, decide_eq_true_eq] at hg
      exact h.remove hpresent hg.1 hg.2
  | clean n ok =>
      simp only [Projects.step, Option.ite_none_right_eq_some, Option.some.injEq] at hn
      obtain ⟨hpc, rfl⟩ := hn
      obtain rfl : ok = true := hg
      have hrag := h.clean (List.mem_of_getElem? hpc)
      refine h.setPc hpc rfl rfl rfl rfl ?_ ?_ (by decide) ?_
      · intro hp
        have hgone := h.gone hp
        exact ⟨hgone.files, hgone.worker, hgone.threads⟩
      · intro hor
        rcases hor with hp | hpc
        · exact hp
        · cases hpc
      · intro m pc'' _ _ _
        simp [State.hasCollection, State.setPc, State.setStores, hrag]
  | commit n =>
      simp only [Projects.step, Option.ite_none_right_eq_some, Option.some.injEq] at hn
      obtain ⟨⟨hpc, -⟩, rfl⟩ := hn
      have hquiet := h.quiet (List.any_eq_true.mpr ⟨_, List.mem_of_getElem? hpc, rfl⟩)
      refine h.setPc hpc rfl rfl rfl rfl ?_ (fun _ ↦ rfl) (by decide) ?_
      · intro _
        refine ⟨fun _ ↦ rfl, ?_, hquiet.2⟩
        intro f j hj
        cases hquiet.1.symm.trans hj
      · intro m pc'' _ hm hc
        by_cases hmn : m = n
        · subst hmn
          exact h.cleaned m _ hpc rfl
        · exact h.cleaned m pc'' (hm hmn) hc
  | raise n =>
      simp only [Projects.step, Option.ite_none_right_eq_some, Option.some.injEq] at hn
      obtain ⟨hany, rfl⟩ := hn
      cases hpc : s.removals[n]? with
      | none =>
          rw [hpc] at hany
          cases hany
      | some pc =>
          rw [hpc] at hany
          refine h.setPc hpc hany rfl rfl rfl (fun hp ↦ h.gone hp) ?_ (by decide) ?_
          · intro hor
            rcases hor with hp | hpc
            · exact hp
            · cases hpc
          · intro m pc'' hmn hm hc
            by_cases hmn' : m = n
            · obtain rfl := hmn hmn'
              cases hc
            · exact h.cleaned m pc'' (hm hmn') hc

end Inv

/-- **What a deleted project leaves in Chroma.**  For a project of either type and every history
of uploads, jobs and deletions, in which no job is in flight and Chroma can be reached while the
project is being deleted: after the deletion has succeeded there is no collection of the project,
then or later, exactly if the project is a `rag` project, or had no collection when its deletion
was requested. -/
theorem no_collection_iff (c : Files.Config) (type : ProjectType) (x : State × (Nat → Bool))
    (h : (system c type).Reach Calm x) (n : Nat) (hn : x.1.removals[n]? = some .succeeded) :
    x.1.base.stores.chroma = none ↔ type = .rag ∨ x.2 n = false := by
  have hinv : Inv type x.1 x.2 := by
    apply h.invariant (P := fun x ↦ Inv type x.1 x.2) Inv.init
    intro x a x' hx hg ha
    obtain ⟨t, ht, rfl⟩ := Option.map_eq_some_iff.mp ha
    exact hx.step hg ht
  have hcollection := hinv.cleaned n _ hn rfl
  rw [State.hasCollection, Option.isSome_iff_ne_none] at hcollection
  rw [← not_iff_not, ← ne_eq, hcollection]
  simp

/-! ## Runs -/

/-- A file is uploaded and indexed. -/
def indexRun : List Act :=
  ([.upload, .startIndex 0, .index .ok, .index .ok, .index .ok, .index .ok, .index .ok, .index .ok,
    .index (.parsed [⟨0, some 1, "text"⟩]), .index .ok, .index .ok, .index .ok, .next] :
      List Files.Act).map .base

/-- `no_collection_iff` at a `rag` project with an indexed file. -/
theorem no_collection_indexRun : ∃ x, (system .sample .rag).Reach Calm x ∧
    x.1.removals[0]? = some .succeeded ∧ x.2 0 = true ∧ x.1.base.stores.chroma = none := by
  obtain ⟨x, hx, hr⟩ := System.Reach.of_exec (S := system .sample .rag) (g := Calm)
    (l := indexRun ++ ([.remove, .clean 0 true, .commit 0] : List Act))
    (f := fun x ↦ (x.1.removals[0]?, x.2 0)) (b := (some .succeeded, true)) (by decide)
  simp only [Prod.mk.injEq] at hr
  exact ⟨x, hx, hr.1, hr.2, (no_collection_iff .sample .rag x hx 0 hr.1).mpr (.inl rfl)⟩

/-- The vectors of a `finetune` project outlive it. -/
theorem vectors_outlive_project : ∃ x, (system .sample .finetune).Reach Calm x ∧
    x.1.removals[0]? = some .succeeded ∧ x.1.present = false ∧
    x.1.base.stores.chroma = some [⟨0, 0, "text"⟩] := by
  obtain ⟨x, hx, hr⟩ := System.Reach.of_exec (S := system .sample .finetune) (g := Calm)
    (l := indexRun ++ ([.remove, .commit 0] : List Act))
    (f := fun x ↦ (x.1.removals[0]?, x.1.present, x.1.base.stores.chroma))
    (b := (some .succeeded, false, some [⟨0, 0, "text"⟩])) (by decide)
  simp only [Prod.mk.injEq] at hr
  exact ⟨x, hx, hr⟩

end Adapta.Projects
