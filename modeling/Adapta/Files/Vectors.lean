import Adapta.Files.Delete

/-!
# No vectors survive a delete

A request that has looked at Chroma removes the vectors it has seen and no others.  So the
vectors of a deleted file are gone, in every run in which no upsert comes after that look
with a chunk the request has not seen (`no_vectors_of_timely`).  Nothing in the code keeps
a job from such an upsert, and `lateUpsertRun_leaves_vector` is a run in which the index
job makes it and commits, and the delete, which has waited for this commit, succeeds.
-/

namespace Adapta.Files

open Lib

variable {c : Config} {s s' : State} {st st' : Stores} {f : FileId} {x : Act}

/-! ## The condition -/

/-- The request has yet to look at Chroma, or is going to remove the vector `n`. -/
def DeletePc.covers (n : Nat) : DeletePc → Bool
  | .collection | .get | .failed => true
  | .remove ids => n ∈ ids
  | .row | .commit | .succeeded => false

/-- The chunks a job upserts if its awaited call is executed. -/
def Job.upserts : Job → List Chunk
  | .index (.attempt _ (.upsert cs)) => cs
  | .extract (.upsert _ _ new _) => new
  | _ => []

/-- The chunks a thread upserts with its next call. -/
def Thread.upserts : Thread → Option (FileId × List Chunk)
  | .upsert f cs => some (f, cs)
  | _ => none

/-- The event executes the awaited call, or may have. -/
def JobEv.executes : JobEv → Bool
  | .ok | .raised _ true => true
  | _ => false

def ExtractEv.executes : ExtractEv → Bool
  | .ok | .raised _ true => true
  | _ => false

/-- The file and the chunks a step upserts. -/
def State.upserts (s : State) : Act → Option (FileId × List Chunk)
  | .index e => if e.executes then s.worker.map fun w ↦ (w.1, w.2.upserts) else none
  | .extract e => if e.executes then s.worker.map fun w ↦ (w.1, w.2.upserts) else none
  | .thread n => (s.threads[n]?).bind Thread.upserts
  | _ => none

/-- The step upserts no chunk of a file that a request, having looked at the file's
vectors, is not going to remove. -/
def Timely (s : State) (x : Act) : Prop :=
  ∀ u ∈ s.upserts x, ∀ d ∈ s.deletes, d.1 = u.1 → ∀ k ∈ u.2, d.2.covers k.index

instance (s : State) (x : Act) : Decidable (Timely s x) :=
  inferInstanceAs (Decidable (∀ u ∈ s.upserts x, _))

/-! ## The invariant -/

/-- Chunks and vectors are only there once the project has its `collections` row. -/
structure Grounded (st : Stores) : Prop where
  vectors : ∀ v ∈ st.vectors, st.collection = true
  chunks : ∀ f, st.chunks f ≠ [] → st.collection = true

theorem Grounded.of_collection (h : st.collection = true) : Grounded st :=
  ⟨fun _ _ ↦ h, fun _ _ ↦ h⟩

/-- The job relies on the `collections` row, and on the way to an upsert or a commit. -/
def IndexPc.relies : IndexPc → Bool
  | .checkCollection | .ensure | .parse | .persist _ | .upsert _ | .endCommit _ => true
  | _ => false

def Job.relies : Job → Bool
  | .index (.attempt _ pc) => pc.relies
  | .extract (.maxIndex _ _ _) | .extract (.deleteOld _ _ _) | .extract (.upsert _ _ _ _)
  | .extract (.surplus _ _ _ _) | .extract (.commit _ _ _ _) => true
  | _ => false

structure Inv (s : State) : Prop where
  grounded : Grounded s.stores
  worker : ∀ f j, s.worker = some (f, j) → j.relies → s.stores.collection = true
  threads : ∀ t ∈ s.threads, ∀ u, t.upserts = some u → s.stores.collection = true
  deletes : ∀ d ∈ s.deletes, ∀ v ∈ s.stores.vectors, v.file = d.1 → d.2.covers v.index

/-! ## Effects -/

/-- What a call does to the stores: all it may add to Chroma are the chunks `cs` of `f`. -/
structure Effect (f : FileId) (cs : List Chunk) (st st' : Stores) : Prop where
  collection : st.collection = true → st'.collection = true
  grounded : Grounded st → Grounded st'
  vectors : ∀ v ∈ st'.vectors, v ∈ st.vectors ∨ (v.file = f ∧ ∃ k ∈ cs, v.index = k.index)

namespace Effect

variable {cs : List Chunk}

protected theorem refl (f : FileId) (cs : List Chunk) (st : Stores) : Effect f cs st st :=
  ⟨id, id, fun _ hv ↦ .inl hv⟩

/-- A call on Postgres that leaves chunks and collections alone. -/
theorem of_eq (hch : st'.chunks = st.chunks) (hco : st'.collection = st.collection)
    (hv : st'.chroma = st.chroma) : Effect f cs st st' where
  collection h := hco.trans h
  grounded h := by
    refine ⟨fun v hmem ↦ hco.trans (h.vectors v ?_), fun g hg ↦ hco.trans (h.chunks g ?_)⟩
    · rwa [Stores.vectors, hv] at hmem
    · rwa [hch] at hg
  vectors v hmem := by
    rw [Stores.vectors, hv] at hmem
    exact .inl hmem

theorem writeFile {o : Tracked FileRow} (h : st.writeFile f o = some st') : Effect f cs st st' := by
  obtain ⟨hch, hco, hv⟩ := Stores.writeFile_eq h
  exact of_eq hch hco hv

/-- A call made once the `collections` row is there. -/
theorem of_collection (hco : st.collection = true) (hc : st'.collection = st.collection)
    (hv : ∀ v ∈ st'.vectors, v ∈ st.vectors ∨ (v.file = f ∧ ∃ k ∈ cs, v.index = k.index)) :
    Effect f cs st st' :=
  ⟨fun h ↦ hc.trans h, fun _ ↦ .of_collection (hc.trans hco), hv⟩

theorem ensureCollection : Effect f cs st st.ensureCollection :=
  ⟨id, fun h ↦ ⟨h.vectors, h.chunks⟩, fun _ hv ↦ .inl hv⟩

theorem indexChunks (hco : st.collection = true) : Effect f cs st (st.indexChunks f cs) := by
  refine of_collection hco ?_ fun v hv ↦ Stores.index_of_mem_indexChunks hv
  rw [Stores.indexChunks]
  split <;> rfl

/-- The upsert of the index job, which first makes sure of the collection. -/
theorem upsert (hco : st.collection = true) :
    Effect f cs st (st.ensureCollection.indexChunks f cs) := by
  have h : Effect f cs st.ensureCollection (st.ensureCollection.indexChunks f cs) := indexChunks hco
  exact ⟨h.collection, fun _ ↦ .of_collection (h.collection hco), h.vectors⟩

theorem deleteIds (ids : List Nat) : Effect f cs st (st.deleteIds f ids) :=
  ⟨id, fun h ↦ ⟨fun v hv ↦ h.vectors v (Stores.mem_deleteIds.mp hv).1, h.chunks⟩,
    fun _ hv ↦ .inl (Stores.mem_deleteIds.mp hv).1⟩

theorem dropFile : Effect f cs st (st.dropFile f) := by
  refine ⟨id, fun h ↦ ⟨h.vectors, fun g hg ↦ h.chunks g ?_⟩, fun _ hv ↦ .inl hv⟩
  by_cases hgf : g = f
  · subst hgf
    simp [Stores.dropFile, Stores.setChunks] at hg
  · simpa [Stores.dropFile, Stores.setChunks, Stores.setFile, hgf] using hg

end Effect

theorem IndexPc.effect_spec {pc : IndexPc} (final : Bool) (hr : pc.relies → st.collection = true)
    (h : pc.effect c f st = .ok st') : Effect f (Job.index (.attempt final pc)).upserts st st' := by
  cases pc with
  | lookup | find | checkCollection | parse | cleanGet | mark | ended | raised =>
      cases h
      exact .refl _ _ _
  | startCommit o | markCommit _ _ o =>
      simp only [IndexPc.effect] at h
      split at h
      · next hw =>
          cases h
          exact .writeFile hw
      · cases h
  | insertCollection =>
      cases h
      exact ⟨fun _ ↦ rfl, fun _ ↦ .of_collection rfl, fun _ hv ↦ .inl hv⟩
  | ensure =>
      cases h
      exact .ensureCollection
  | persist cs =>
      simp only [IndexPc.effect] at h
      split at h <;> cases h
      exact .refl _ _ _
  | upsert cs =>
      cases h
      exact .upsert (hr rfl)
  | endCommit cs =>
      simp only [IndexPc.effect] at h
      split at h <;> cases h
      exact .of_collection (hr rfl) rfl fun _ hv ↦ .inl hv
  | cleanDelete e ids =>
      cases h
      exact .deleteIds ids

/-! ## The index job -/

theorem IndexJob.effect_spec {j : IndexJob} (hr : (Job.index j).relies → st.collection = true)
    (h : j.effect c f st = .ok st') : Effect f (Job.index j).upserts st st' := by
  cases j with
  | attempt final pc => exact IndexPc.effect_spec final hr h
  | failCommit o =>
      simp only [IndexJob.effect] at h
      split at h
      · next hw =>
          cases h
          exact .writeFile hw
      · cases h
  | failDelete ids =>
      cases h
      exact .deleteIds ids
  | failSelect | failGet | returned | raised | cancelled =>
      cases h
      exact .refl _ _ _

/-- The `collections` row is there from its commit on. -/
theorem IndexPc.relies_resume {pc : IndexPc} (final : Bool)
    (h : (pc.resume f final st).relies) : pc.relies ∨ pc = .insertCollection := by
  cases pc with
  | insertCollection => exact .inr rfl
  | checkCollection | ensure | parse | persist | upsert | endCommit => exact .inl rfl
  | lookup | find | mark | cleanGet =>
      simp only [IndexPc.resume] at h
      repeat' split at h
      all_goals cases h
  | startCommit | cleanDelete | markCommit | ended | raised => cases h

theorem IndexJob.relies_settle {final : Bool} {pc : IndexPc}
    (h : (Job.index (settle final pc)).relies) : pc.relies := by
  cases pc with
  | ended | raised =>
      simp only [settle, timedOut] at h
      repeat' split at h
      all_goals cases h
  | lookup | find | startCommit | insertCollection | checkCollection | ensure | parse | persist
  | upsert | endCommit | cleanGet | cleanDelete | mark | markCommit => exact h

theorem IndexJob.relies_resume {j : IndexJob} (h : (Job.index (j.resume c f st)).relies) :
    (Job.index j).relies ∨ ∃ final, j = .attempt final .insertCollection := by
  cases j with
  | attempt final pc =>
      rcases IndexPc.relies_resume final (relies_settle h) with h | rfl
      · exact .inl h
      · exact .inr ⟨final, rfl⟩
  | failSelect | failGet =>
      simp only [IndexJob.resume, raiseTimeout] at h
      repeat' split at h
      all_goals cases h
  | failCommit | failDelete | returned | raised | cancelled => cases h

/-- A job that handles an exception does not rely on the row. -/
theorem IndexJob.not_relies_afterRaise (e : Exc) (j : IndexJob) :
    ¬(Job.index (j.afterRaise c e)).relies := by
  intro h
  cases j with
  | attempt final pc =>
      have h := relies_settle h
      cases pc <;> cases h
  | failSelect | failCommit | failGet | failDelete | returned | raised | cancelled => cases h

theorem IndexJob.mayApply_spec {j : IndexJob} (hr : (Job.index j).relies → st.collection = true)
    {applied : Bool} {cs : List Chunk} (hcs : applied → (Job.index j).upserts = cs) :
    Effect f cs st (j.mayApply c f st applied) := by
  cases applied with
  | false => exact .refl _ _ _
  | true =>
      rw [← hcs rfl]
      cases h : j.effect c f st with
      | ok st' =>
          simp only [IndexJob.mayApply, h]
          exact effect_spec hr h
      | error e =>
          simp only [IndexJob.mayApply, h]
          exact .refl _ _ _

/-- The upsert is made on a thread. -/
theorem IndexJob.upserts_of_thread {j : IndexJob} (h : j.thread f = none) :
    (Job.index j).upserts = [] := by
  cases j with
  | attempt final pc => cases pc <;> first | rfl | cases h
  | failSelect | failCommit | failGet | failDelete | returned | raised | cancelled => rfl

/-- One event of the index job. -/
theorem IndexJob.step_spec {j j' : IndexJob} {locked : Bool} {e : JobEv}
    (hr : (Job.index j).relies → st.collection = true)
    (h : j.step c f st locked e = some (st', j')) :
    Effect f (if e.executes then (Job.index j).upserts else []) st st' ∧
      ((Job.index j').relies → st'.collection = true) := by
  simp only [IndexJob.step] at h
  split at h
  · cases h
  cases e with
  | ok =>
      simp only at h
      split at h
      · cases h
      split at h
      · next st₁ he =>
          cases h
          have heff := effect_spec hr he
          refine ⟨heff, ?_⟩
          intro hrel
          rcases relies_resume hrel with hj | ⟨final, rfl⟩
          · exact heff.collection (hr hj)
          · cases he
            rfl
      · cases h
        exact ⟨.refl _ _ _, fun hrel ↦ absurd hrel (not_relies_afterRaise _ j)⟩
  | parsed cs =>
      simp only at h
      split at h <;> cases h
      exact ⟨.refl _ _ _, fun _ ↦ hr rfl⟩
  | raised e applied =>
      cases h
      refine ⟨mayApply_spec hr ?_, fun hrel ↦ absurd hrel (not_relies_afterRaise _ j)⟩
      intro ha
      rw [decide_eq_true_eq] at ha
      rw [ha.1]
      rfl
  | deadline applied =>
      simp only at h
      split at h <;> cases h
      refine ⟨mayApply_spec hr ?_, ?_⟩
      · intro ha
        rw [decide_eq_true_eq] at ha
        exact upserts_of_thread ha.2.2
      · intro hrel
        rw [timedOut] at hrel
        split at hrel <;> cases hrel
  | cancel applied =>
      cases h
      refine ⟨mayApply_spec hr ?_, fun hrel ↦ by cases hrel⟩
      intro ha
      rw [decide_eq_true_eq] at ha
      exact upserts_of_thread ha.2.2

/-! ## The extract job -/

namespace ExtractPc

theorem effect_spec {pc : ExtractPc} (hr : (Job.extract pc).relies → st.collection = true)
    (h : pc.effect c f st = .ok st') : Effect f (Job.extract pc).upserts st st' := by
  cases pc with
  | lookup | read | select | maxIndex | deleteOld | returned | raised | cancelled =>
      cases h
      exact .refl _ _ _
  | upsert p old new held =>
      cases h
      exact .indexChunks (hr rfl)
  | surplus p old new held =>
      cases h
      exact .deleteIds _
  | commit p old new held =>
      simp only [effect] at h
      split at h <;> cases h
      exact .of_collection (hr rfl) rfl fun _ hv ↦ .inl hv

theorem not_relies_nextPage (pages : List Nat) (done : Nat) :
    ¬(Job.extract (nextPage pages done)).relies := by
  intro h
  cases pages with
  | cons => cases h
  | nil =>
      simp only [nextPage] at h
      split at h <;> cases h

/-- A page is replaced only if it has chunks. -/
theorem collection_of_resume {pc : ExtractPc} (hg : Grounded st)
    (hr : (Job.extract pc).relies → st.collection = true)
    (h : (Job.extract (pc.resume f st)).relies) : st.collection = true := by
  cases pc with
  | maxIndex | deleteOld | upsert | surplus | commit => exact hr rfl
  | lookup | read | returned | raised | cancelled => cases h
  | select p pieces =>
      simp only [resume] at h
      split at h
      · exact absurd h (not_relies_nextPage _ _)
      · exact absurd h (not_relies_nextPage _ _)
      · next k ks heq =>
          apply hg.chunks f
          intro hnil
          rw [hnil] at heq
          cases heq

theorem mayApply_spec {pc : ExtractPc} (hr : (Job.extract pc).relies → st.collection = true)
    {applied : Bool} {cs : List Chunk} (hcs : applied → (Job.extract pc).upserts = cs) :
    Effect f cs st (pc.mayApply c f st applied) := by
  cases applied with
  | false => exact .refl _ _ _
  | true =>
      rw [← hcs rfl]
      cases h : pc.effect c f st with
      | ok st' =>
          simp only [mayApply, h]
          exact effect_spec hr h
      | error e =>
          simp only [mayApply, h]
          exact .refl _ _ _

theorem upserts_of_thread {pc : ExtractPc} (h : pc.thread f = none) :
    (Job.extract pc).upserts = [] := by
  cases pc <;> first | rfl | cases h

/-- One event of the extract job. -/
theorem step_spec {pc pc' : ExtractPc} {locked : Bool} {e : ExtractEv} (hg : Grounded st)
    (hr : (Job.extract pc).relies → st.collection = true)
    (h : pc.step c f st locked e = some (st', pc')) :
    Effect f (if e.executes then (Job.extract pc).upserts else []) st st' ∧
      ((Job.extract pc').relies → st'.collection = true) := by
  simp only [ExtractPc.step] at h
  split at h
  · cases h
  cases e with
  | ok =>
      simp only at h
      split at h
      · cases h
      split at h
      · next st₁ he =>
          cases h
          have heff := effect_spec hr he
          exact ⟨heff, fun hrel ↦ heff.collection (collection_of_resume hg hr hrel)⟩
      · cases h
        exact ⟨.refl _ _ _, fun hrel ↦ by cases hrel⟩
  | selected pages =>
      simp only at h
      split at h <;> cases h
      · refine ⟨.refl _ _ _, ?_⟩
        intro hrel
        split at hrel <;> cases hrel
      · refine ⟨.refl _ _ _, ?_⟩
        intro hrel
        split at hrel <;> cases hrel
  | read pieces =>
      simp only at h
      split at h <;> cases h
      exact ⟨.refl _ _ _, fun hrel ↦ by cases hrel⟩
  | skipped =>
      simp only at h
      split at h <;> cases h
      exact ⟨.refl _ _ _, fun hrel ↦ absurd hrel (not_relies_nextPage _ _)⟩
  | raised message applied =>
      cases h
      refine ⟨mayApply_spec hr ?_, fun hrel ↦ by cases hrel⟩
      intro ha
      rw [decide_eq_true_eq] at ha
      rw [ha.1]
      rfl
  | cancel applied =>
      cases h
      refine ⟨mayApply_spec hr ?_, fun hrel ↦ by cases hrel⟩
      intro ha
      rw [decide_eq_true_eq] at ha
      exact upserts_of_thread ha.2.2

end ExtractPc

/-! ## Threads -/

theorem Thread.run_spec {t : Thread} (ht : ∀ u, t.upserts = some u → st.collection = true) :
    (∃ g cs, Effect g cs st (t.run st).1 ∧ ((g, cs) ∈ t.upserts ∨ cs = [])) ∧
      ∀ t' ∈ (t.run st).2, t'.upserts = none := by
  cases t with
  | ensure => exact ⟨⟨0, [], .ensureCollection, .inr rfl⟩, by rintro _ ⟨⟩⟩
  | upsert f cs => exact ⟨⟨f, cs, .upsert (ht _ rfl), .inl rfl⟩, by rintro _ ⟨⟩⟩
  | get f =>
      refine ⟨⟨f, [], .refl _ _ _, .inr rfl⟩, ?_⟩
      intro t' ht'
      rw [Thread.run] at ht'
      split at ht' <;> cases ht'
      rfl
  | delete f ids => exact ⟨⟨f, [], .deleteIds ids, .inr rfl⟩, by rintro _ ⟨⟩⟩

/-- Only a job on its way to an upsert leaves a thread that makes it. -/
theorem Job.relies_of_thread {j : Job} {t : Thread} {u : FileId × List Chunk}
    (h : j.thread f = some t) (hu : t.upserts = some u) : j.relies := by
  cases j with
  | index j =>
      cases j with
      | attempt final pc => cases pc <;> cases h <;> first | rfl | cases hu
      | failSelect | failCommit | failGet | failDelete | returned | raised | cancelled =>
          cases h <;> cases hu
  | extract pc => cases pc <;> cases h <;> rfl

/-! ## Steps -/

namespace Inv

theorem init : Inv State.init where
  grounded := ⟨fun v hv ↦ absurd hv List.not_mem_nil, fun _ h ↦ absurd rfl h⟩
  worker := by rintro f j ⟨⟩
  threads t ht := by cases ht
  deletes d hd := by cases hd

/-- A call that upserts no more than the requests allow. -/
theorem effect (h : Inv s) {cs : List Chunk} (he : Effect f cs s.stores st')
    (ht : ∀ d ∈ s.deletes, d.1 = f → ∀ k ∈ cs, d.2.covers k.index) :
    Inv { s with stores := st' } where
  grounded := he.grounded h.grounded
  worker g j hw hrel := he.collection (h.worker g j hw hrel)
  threads t hmem u hu := he.collection (h.threads t hmem u hu)
  deletes d hd v hv hf := by
    rcases he.vectors v hv with hv | ⟨hvf, k, hk, hidx⟩
    · exact h.deletes d hd v hv hf
    · rw [hidx]
      exact ht d hd (hf.symm.trans hvf) k hk

/-- A call that does not upsert. -/
theorem quiet (h : Inv s) (he : Effect f [] s.stores st') : Inv { s with stores := st' } :=
  h.effect he fun _ _ _ _ hk ↦ by cases hk

theorem setWorker (h : Inv s) {w : Option (FileId × Job)}
    (hw : ∀ f j, w = some (f, j) → j.relies → s.stores.collection = true) :
    Inv { s with worker := w } := ⟨h.grounded, hw, h.threads, h.deletes⟩

theorem setThreads (h : Inv s) {ts : List Thread}
    (ht : ∀ t ∈ ts, ∀ u, t.upserts = some u → s.stores.collection = true) :
    Inv { s with threads := ts } := ⟨h.grounded, h.worker, ht, h.deletes⟩

/-- A request moves. -/
theorem setDelete (h : Inv s) {n : Nat} {pc : DeletePc}
    (hpc : ∀ v ∈ s.stores.vectors, v.file = f → pc.covers v.index) : Inv (s.setDelete n f pc) := by
  refine ⟨h.grounded, h.worker, h.threads, ?_⟩
  intro d hd
  rcases List.mem_or_eq_of_mem_set hd with hd | rfl
  · exact h.deletes d hd
  · exact hpc

theorem jobMove (h : Inv s) {j j' : Job} {cs : List Chunk} {cancels : Bool}
    (hw : s.worker = some (f, j)) (he : Effect f cs s.stores st')
    (ht : ∀ d ∈ s.deletes, d.1 = f → ∀ k ∈ cs, d.2.covers k.index)
    (hj : j'.relies → st'.collection = true) : Inv (s.jobMove f j (st', j') cancels) := by
  have hs : Inv { s with stores := st', worker := some (f, j') } := by
    apply (h.effect he ht).setWorker
    rintro g i ⟨⟩
    exact hj
  cases cancels with
  | false => exact hs
  | true =>
      apply hs.setThreads
      intro t hmem u hu
      rcases List.mem_append.mp hmem with hmem | hmem
      · exact he.collection (h.worker f j hw
          (Job.relies_of_thread (Option.mem_toList.mp hmem) hu))
      · exact he.collection (h.threads t hmem u hu)

/-- The look of a request at Chroma. -/
theorem deleteOk (h : Inv s) {n : Nat} {pc : DeletePc} (hd : (f, pc) ∈ s.deletes)
    (hn : s.deleteOk n f pc = some s') : Inv s' := by
  have hcov : ∀ v ∈ s.stores.vectors, v.file = f → pc.covers v.index := h.deletes _ hd
  cases pc with
  | collection =>
      cases hn
      apply h.setDelete
      intro v hv _
      -- without the row there are no vectors to remove
      rw [if_pos (h.grounded.vectors v hv)]
      rfl
  | get =>
      simp only [State.deleteOk] at hn
      split at hn
      · cases hn
        exact h.setDelete fun _ _ _ ↦ rfl
      · cases hn
        apply h.setDelete
        intro v hv hf
        have hmem : v.index ∈ s.stores.fileIds f := Stores.mem_fileIds.mpr ⟨v, hv, hf, rfl⟩
        rw [if_neg (List.ne_nil_of_mem hmem)]
        exact decide_eq_true hmem
  | remove ids =>
      cases hn
      have hq : Inv { s with stores := s.stores.deleteIds f ids } := h.quiet (.deleteIds ids)
      apply Inv.setDelete (s := { s with stores := s.stores.deleteIds f ids }) hq
      intro v hv hf
      obtain ⟨hv, hnot⟩ := Stores.mem_deleteIds.mp hv
      exact absurd ⟨hf, of_decide_eq_true (hcov v hv hf)⟩ hnot
  | row =>
      simp only [State.deleteOk] at hn
      split at hn <;> cases hn
      exact h.setDelete hcov
  | commit =>
      simp only [State.deleteOk] at hn
      split at hn <;> cases hn
      have hq : Inv { s with stores := s.stores.dropFile f } := h.quiet .dropFile
      exact Inv.setDelete (s := { s with stores := s.stores.dropFile f }) hq hcov
  | succeeded | failed => cases hn

/-- What a timely step upserts, if it executes the call, the requests are going to remove. -/
theorem covers_of_timely {b : Bool} {cs : List Chunk} (hg : Timely s x)
    (hu : b = true → s.upserts x = some (f, cs)) :
    ∀ d ∈ s.deletes, d.1 = f → ∀ k ∈ if b then cs else [], d.2.covers k.index := by
  intro d hd hf k hk
  cases b with
  | false => cases hk
  | true => exact hg (f, cs) (hu rfl) d hd hf k hk

theorem step (h : Inv s) (hg : Timely s x) (hn : Files.step c s x = some s') : Inv s' := by
  cases Move.of_step hn with
  | upload =>
      have hq : Inv { s with stores := s.stores.setFile s.nextId (some ⟨.pending, none⟩) } :=
        h.quiet (f := 0) (.of_eq rfl rfl rfl)
      exact ⟨hq.grounded, hq.worker, hq.threads, hq.deletes⟩
  | startIndex | startExtract =>
      apply h.setWorker
      rintro g j ⟨⟩ hrel
      cases hrel
  | next => exact h.setWorker (by rintro f j ⟨⟩)
  | crash =>
      have hs : Inv { s with worker := none } := h.setWorker (by rintro f j ⟨⟩)
      exact hs.setThreads fun t ht ↦ absurd ht List.not_mem_nil
  | index hw hj =>
      obtain ⟨heff, hrel⟩ := IndexJob.step_spec (h.worker _ _ hw) hj
      refine h.jobMove hw heff (covers_of_timely hg ?_) hrel
      intro hx
      rw [State.upserts, if_pos hx, hw]
      rfl
  | extract hw hpc =>
      obtain ⟨heff, hrel⟩ := ExtractPc.step_spec h.grounded (h.worker _ _ hw) hpc
      refine h.jobMove hw heff (covers_of_timely hg ?_) hrel
      intro hx
      rw [State.upserts, if_pos hx, hw]
      rfl
  | @thread n t ht =>
      have hmem : t ∈ s.threads := List.mem_of_getElem? ht
      obtain ⟨⟨g, cs, heff, hcs⟩, hrest⟩ := Thread.run_spec (h.threads t hmem)
      have hs : Inv { s with stores := (t.run s.stores).1 } := by
        apply h.effect heff
        intro d hd hf k hk
        rcases hcs with hcs | rfl
        · refine hg (g, cs) ?_ d hd hf k hk
          rw [State.upserts, ht]
          exact hcs
        · cases hk
      apply hs.setThreads
      intro t' ht' u hu
      rcases List.mem_append.mp ht' with ht' | ht'
      · rw [hrest t' (Option.mem_toList.mp ht')] at hu
        cases hu
      · exact heff.collection (h.threads t' (List.mem_of_mem_eraseIdx ht') u hu)
  | delete hf =>
      refine ⟨h.grounded, h.worker, h.threads, ?_⟩
      intro d hd
      rcases List.mem_append.mp hd with hd | hd
      · exact h.deletes d hd
      · rw [List.mem_singleton.mp hd]
        exact fun _ _ _ ↦ rfl
  | deleteOk hd hs' => exact h.deleteOk (List.mem_of_getElem? hd) hs'
  | deleteError hd => exact h.setDelete fun _ _ _ ↦ rfl

end Inv

/-- **No vectors survive a delete.**  In every run in which no upsert of a job, or of a
thread it has left, comes too late for a request: once the delete of a file has succeeded,
the collection has no vector of it. -/
theorem no_vectors_of_timely (c : Config) (s : State) (h : (system c).Reach Timely s)
    (f : FileId) (hd : (f, .succeeded) ∈ s.deletes) : ∀ v ∈ s.stores.vectors, v.file ≠ f := by
  have hinv : Inv s := h.invariant Inv.init fun _ _ _ hs hg hn ↦ hs.step hg hn
  intro v hv hf
  cases hinv.deletes _ hd v hv hf

/-- The chunk of a small document. -/
def onePage : Chunk := ⟨0, some 1, "text"⟩

/-- The events of an index job up to its flush of the chunk rows. -/
def indexHead (cs : List Chunk) : List Act :=
  [.index .ok, .index .ok, .index .ok, .index .ok, .index .ok, .index .ok, .index (.parsed cs)]

/-- Its flush, its upsert and its last commit. -/
def indexTail : List Act := [.index .ok, .index .ok, .index .ok]

/-- Two files are indexed, and the first is deleted while the worker extracts from it: its
upsert comes before the request looks at Chroma, and its commit fails. -/
def timelyRun : List Act :=
  ([.upload, .upload, .startIndex 0] : List Act) ++ indexHead [onePage] ++ indexTail ++
  ([.next, .startIndex 1] : List Act) ++ indexHead [onePage] ++ indexTail ++
  ([.next, .startExtract 0, .extract (.selected [1]), .extract (.read (some ["a", "b"])),
    .extract .ok, .extract .ok, .delete 0, .deleteOk 0, .extract .ok, .extract .ok,
    .deleteOk 0, .deleteOk 0, .extract (.raised "deadlock detected" false), .deleteOk 0,
    .deleteOk 0, .next] : List Act)

/-- The hypotheses of `no_vectors_of_timely` are met by a run in which the vectors of
another file stay. -/
theorem no_vectors_timelyRun : ∃ s, (system .sample).Reach Timely s ∧
    (0, .succeeded) ∈ s.deletes ∧ s.stores.vectors = [⟨1, 0, "text"⟩] ∧
    ∀ v ∈ s.stores.vectors, v.file ≠ 0 := by
  obtain ⟨s, hs, hr⟩ := System.Reach.of_exec (S := system .sample) (g := Timely)
    (l := timelyRun) (f := fun s ↦ (s.deletes, s.stores.vectors))
    (b := ([(0, .succeeded)], [⟨1, 0, "text"⟩])) (by decide)
  have hreqs : s.deletes = [(0, .succeeded)] := congrArg Prod.fst hr
  have hd : (0, .succeeded) ∈ s.deletes := by simp [hreqs]
  exact ⟨s, hs, hd, congrArg Prod.snd hr, no_vectors_of_timely .sample s hs 0 hd⟩

/-- The request looks at Chroma after the parsing and before the upsert; its `DELETE` of
the row then waits until the job has committed. -/
def lateUpsertRun : List Act :=
  [.upload, .startIndex 0] ++ indexHead [onePage] ++
  [.delete 0, .deleteOk 0, .deleteOk 0] ++ indexTail ++ [.deleteOk 0, .deleteOk 0, .next]

/-- Vectors can survive a delete: the request has succeeded and the job has ended, and the
collection has a vector of the file. -/
theorem lateUpsertRun_leaves_vector : ∃ s, (system .sample).Reachable s ∧
    (0, .succeeded) ∈ s.deletes ∧ s.worker = none ∧ s.threads = [] ∧
    s.stores.files 0 = none ∧ ⟨0, 0, "text"⟩ ∈ s.stores.vectors := by
  obtain ⟨s, hs, hr⟩ := System.Reach.of_exec (S := system .sample) (g := fun _ _ ↦ True)
    (l := lateUpsertRun)
    (f := fun s ↦ (s.deletes, s.stores.vectors,
      s.worker.isNone && s.threads.isEmpty && (s.stores.files 0).isNone))
    (b := ([(0, .succeeded)], [⟨0, 0, "text"⟩], true)) (by decide)
  simp only [Prod.mk.injEq, Bool.and_eq_true, Option.isNone_iff_eq_none, List.isEmpty_iff] at hr
  obtain ⟨hd, hv, ⟨hw, ht⟩, hf⟩ := hr
  exact ⟨s, hs, by simp [hd], hw, ht, hf, by simp [hv]⟩

end Adapta.Files
