import Adapta.Lib.System
import Adapta.Files.Attempt

/-!
# Index jobs that run out of time

`wait_for` bounds each attempt of an index job.  A blown deadline cancels the attempt at its
await, past every `except Exception`; a call that was made on a thread goes on without it.
The first attempt is then followed by a second one, and the second one by `_fail_file`, which
looks for the file's vectors once and removes those it has seen.

Here one job runs alone, from a row that waits to be indexed.  Its deadlines may expire at any
await, its calls may raise (without an effect), and the threads it has left make their calls at
any time.  `settled_of_kept` says when nothing is left behind: an upsert that was left must not
come once the job has stopped looking, nor a delete once its attempt has been repeated, and an
attempt must neither fail before its own upsert nor commit while Chroma has vectors that it does
not know of.  `lateThreadRun_leaves_vector` is a run of the first kind.
-/

namespace Adapta.Files.Deadline

open Lib

/-! ## The run -/

/-- A job under way, with the threads its deadlines have left. -/
structure Run where
  stores : Stores
  job : IndexJob
  threads : List Thread

/-- One atomic step. -/
inductive Move where
  /-- The awaited call returns. -/
  | ok
  | parsed (cs : List Chunk)
  /-- The awaited call raises, without an effect. -/
  | raised (e : Exc)
  /-- The deadline expires; an awaited commit may have been executed. -/
  | deadline (applied : Bool)
  /-- A thread that was left makes its next call. -/
  | thread (n : Nat)
deriving DecidableEq

section

variable (c : Config) (f : FileId) (x : Run)

/-- The job goes on with an event. -/
def Run.event (e : JobEv) (left : List Thread) : Option Run :=
  (x.job.step c f x.stores false e).map fun y ↦
    { stores := y.1, job := y.2, threads := left ++ x.threads }

def Run.step : Move → Option Run
  | .ok => x.event c f .ok []
  | .parsed cs => x.event c f (.parsed cs) []
  | .raised e => x.event c f (.raised e false) []
  | .deadline applied => x.event c f (.deadline applied) (x.job.thread f).toList
  | .thread n => x.threads[n]?.map fun t ↦
      { x with
        stores := (t.run x.stores).1
        threads := (t.run x.stores).2.toList ++ x.threads.eraseIdx n }

/-- `_run_index_job` of the file `f`. -/
def timed (st : Stores) : System Run Move :=
  ⟨{ stores := st, job := .attempt false .lookup, threads := [] }, fun x m ↦ x.step c f m⟩

end

/-! ## The condition -/

/-- While the row waits: the vector `n` may still be removed, or committed with the others. -/
def clears (n : Nat) : IndexJob → Bool
  | .attempt final (.cleanDelete e ids) => IndexPc.retry final e || n ∈ ids
  | .attempt final (.mark e _) | .attempt final (.markCommit e _ _) => IndexPc.retry final e
  | _ => true

/-- Once the row is failed: `_fail_file` has yet to look, or is going to remove the vector. -/
def failClears (n : Nat) : IndexJob → Bool
  | .failGet => true
  | .failDelete ids => n ∈ ids
  | _ => false

/-- A vector with the id `n` is not going to be left behind. -/
def covers (st : Stores) (f : FileId) (j : IndexJob) (n : Nat) : Prop :=
  match (st.files f).map FileRow.status with
  | some .indexed => n ∈ (st.chunks f).map Chunk.index
  | some .failed => failClears n j
  | _ => clears n j

/-- The job has stored the vector `n`, and its commit is to come or has been made. -/
def relies (st : Stores) (f : FileId) (j : IndexJob) (n : Nat) : Prop :=
  n ∈ (st.chunks f).map Chunk.index ∨
    match j with
    | .attempt _ (.endCommit cs) => n ∈ cs.map Chunk.index
    | _ => False

/-- The exception leads to a row that is failed, and nothing is removed any more. -/
def abandons (e : Exc) : IndexJob → Bool
  | .attempt final pc =>
      match pc.afterRaise e with
      | .mark e' _ => !IndexPc.retry final e'
      | _ => false
  | .failGet | .failDelete _ => true
  | _ => false

/-- The exception of a step. -/
def Run.raises (c : Config) (f : FileId) (x : Run) : Move → Option Exc
  | .raised e => some e
  | .ok =>
      match x.job.effect c f x.stores with
      | .error e => some e
      | .ok _ => none
  | _ => none

/-- The chunks whose rows the step commits, or may have committed. -/
def Run.commits (x : Run) : Move → Option (List Chunk)
  | .ok | .deadline true =>
      match x.job with
      | .attempt _ (.endCommit cs) => some cs
      | _ => none
  | _ => none

/-- What a thread that was left may do: an upsert only of what is not going to be left behind,
a delete only of what the job does not rely on. -/
def Run.spares (f : FileId) (x : Run) : Thread → Prop
  | .upsert _ cs => ∀ k ∈ cs, covers x.stores f x.job k.index
  | .delete _ ids => ∀ n ∈ ids, ¬relies x.stores f x.job n
  | .ensure | .get _ => True

/-- No thread comes too late, and the job neither gives up nor commits while there are vectors
that it does not know of. -/
structure Kept (c : Config) (f : FileId) (x : Run) (m : Move) : Prop where
  thread : ∀ n, m = .thread n → ∀ t ∈ x.threads[n]?, x.spares f t
  raise : ∀ e ∈ x.raises c f m, abandons e x.job → x.stores.NoVectors f
  commit : ∀ cs ∈ x.commits m, ∀ n ∈ x.stores.fileIds f, n ∈ cs.map Chunk.index

/-! ## The invariant -/

/-- What is known of the row where the attempt is. -/
def PcOk (r : FileRow) (final : Bool) : IndexPc → Prop
  | .lookup | .ended _ | .raised _ => True
  | .startCommit o => r = o.saved ∧ r.status.transient ∧ o.now.status = .processing
  | .markCommit e _ o => r = o.saved ∧ r.status.transient ∧
      o.now = markRow e (IndexPc.retry final e) o.saved
  | _ => r.status.transient

def JobOk (r : FileRow) : IndexJob → Prop
  | .attempt final pc => PcOk r final pc
  | .failCommit o => r = o.saved ∧ r.status.transient ∧ o.now.status = .failed
  | .failGet | .failDelete _ => r.status = .failed
  | .failSelect | .returned | .raised _ | .cancelled => True

structure Inv (f : FileId) (st : Stores) (j : IndexJob) : Prop where
  row : ∃ r, st.files f = some r ∧ JobOk r j ∧ (r.status ≠ .indexed → st.chunks f = [])
  covered : ∀ n ∈ st.fileIds f, covers st f j n
  kept : ∀ n, relies st f j n → n ∈ st.fileIds f

section

variable {c : Config} {f g : FileId} {st st' : Stores} {j j' : IndexJob} {r r' : FileRow} {n : Nat}
  {cs : List Chunk} {ids : List Nat} {final : Bool} {pc : IndexPc} {e : Exc} {x x' : Run} {m : Move}

/-! ## Vectors of the file -/

theorem fileIds_of_chroma (h : st'.chroma = st.chroma) : st'.fileIds f = st.fileIds f := by
  rw [Stores.fileIds, Stores.vectors, h]
  rfl

theorem mem_fileIds_indexChunks :
    n ∈ (st.indexChunks g cs).fileIds f ↔ n ∈ st.fileIds f ∨ (g = f ∧ n ∈ cs.map Chunk.index) := by
  rw [Stores.mem_fileIds, Stores.mem_fileIds]
  constructor
  · rintro ⟨v, hv, hf, rfl⟩
    rcases Stores.mem_indexChunks.mp hv with ⟨hv, -⟩ | ⟨k, hk, rfl⟩
    · exact .inl ⟨v, hv, hf, rfl⟩
    · exact .inr ⟨hf, List.mem_map_of_mem hk⟩
  · rintro (⟨v, hv, hf, rfl⟩ | ⟨rfl, hn⟩)
    · by_cases hnew : v.file = g ∧ v.index ∈ cs.map Chunk.index
      · -- the vector is replaced by one with its id
        obtain ⟨k, hk, heq⟩ := List.mem_map.mp hnew.2
        exact ⟨⟨g, k.index, k.text⟩, Stores.mem_indexChunks.mpr (.inr ⟨k, hk, rfl⟩),
          hnew.1.symm.trans hf, heq⟩
      · exact ⟨v, Stores.mem_indexChunks.mpr (.inl ⟨hv, hnew⟩), hf, rfl⟩
    · obtain ⟨k, hk, rfl⟩ := List.mem_map.mp hn
      exact ⟨⟨g, k.index, k.text⟩, Stores.mem_indexChunks.mpr (.inr ⟨k, hk, rfl⟩), rfl, rfl⟩

theorem mem_fileIds_deleteIds :
    n ∈ (st.deleteIds g ids).fileIds f ↔ n ∈ st.fileIds f ∧ ¬(g = f ∧ n ∈ ids) := by
  rw [Stores.mem_fileIds, Stores.mem_fileIds]
  constructor
  · rintro ⟨v, hv, rfl, rfl⟩
    obtain ⟨hv, hnot⟩ := Stores.mem_deleteIds.mp hv
    exact ⟨⟨v, hv, rfl, rfl⟩, fun h ↦ hnot ⟨h.1.symm, h.2⟩⟩
  · rintro ⟨⟨v, hv, rfl, rfl⟩, hnot⟩
    exact ⟨v, Stores.mem_deleteIds.mpr ⟨hv, fun h ↦ hnot ⟨h.1.symm, h.2⟩⟩, rfl, rfl⟩

theorem indexChunks_rows (st : Stores) (g : FileId) (cs : List Chunk) :
    (st.indexChunks g cs).files = st.files ∧ (st.indexChunks g cs).chunks = st.chunks := by
  rw [Stores.indexChunks]
  split <;> exact ⟨rfl, rfl⟩

theorem fileIds_of_noVectors (h : st.NoVectors f) : n ∉ st.fileIds f := by
  intro hn
  obtain ⟨v, hv, hf, -⟩ := Stores.mem_fileIds.mp hn
  exact h v hv hf

/-! ## What covers a vector -/

theorem covers_of_transient (hr : st.files f = some r) (ht : r.status.transient) :
    covers st f j n ↔ clears n j := by
  rw [covers, hr]
  cases hs : r.status with
  | pending | processing => simp [hs]
  | indexed | failed => simp [hs, FileStatus.transient] at ht

theorem covers_of_failed (hr : st.files f = some r) (hs : r.status = .failed) :
    covers st f j n ↔ failClears n j := by
  simp [covers, hr, hs]

theorem covers_of_indexed (hr : st.files f = some r) (hs : r.status = .indexed) :
    covers st f j n ↔ n ∈ (st.chunks f).map Chunk.index := by
  simp [covers, hr, hs]

/-- Only the rows of the file matter. -/
theorem covers_congr (hf : st'.files f = st.files f) (hc : st'.chunks f = st.chunks f) :
    covers st' f j n ↔ covers st f j n := by
  rw [covers, covers, hf, hc]

/-- The job has nothing more to remove, but might index the file. -/
def Plain (j : IndexJob) : Prop := ∀ n, clears n j = true ∧ failClears n j = false

theorem plain_timedOut : Plain (IndexJob.timedOut final) := by
  intro n
  cases final <;> exact ⟨rfl, rfl⟩

/-- A plain job leaves behind what an attempt would leave behind. -/
theorem covers_of_plain (hr : st.files f = some r) (hp : Plain j')
    (hj : r.status = .failed → failClears n j = false) (h : covers st f j n) :
    covers st f j' n := by
  cases hs : r.status with
  | pending | processing =>
      exact (covers_of_transient hr (by simp [hs, FileStatus.transient])).mpr (hp n).1
  | indexed => exact (covers_of_indexed hr hs).mpr ((covers_of_indexed hr hs).mp h)
  | failed =>
      have h := (covers_of_failed hr hs).mp h
      rw [hj hs] at h
      cases h

/-! ## Where an attempt leads -/

/-- What an attempt leads to when it is over is plain. -/
theorem settle_eq_or (final : Bool) (pc : IndexPc) :
    IndexJob.settle final pc = .attempt final pc ∨
      (Plain (.attempt final pc) ∧ Plain (IndexJob.settle final pc) ∧
        (∀ r, JobOk r (IndexJob.settle final pc)) ∧
        ∀ st f n, relies st f (IndexJob.settle final pc) n → relies st f (.attempt final pc) n) := by
  cases pc with
  | ended retry =>
      refine .inr ⟨fun n ↦ ⟨rfl, rfl⟩, ?_⟩
      simp only [IndexJob.settle]
      split
      · exact ⟨fun n ↦ ⟨rfl, rfl⟩, fun r ↦ trivial, fun _ _ _ h ↦ h⟩
      · exact ⟨fun n ↦ ⟨rfl, rfl⟩, fun r ↦ trivial, fun _ _ _ h ↦ h⟩
  | raised e =>
      refine .inr ⟨fun n ↦ ⟨rfl, rfl⟩, ?_⟩
      simp only [IndexJob.settle]
      split
      · refine ⟨plain_timedOut, ?_, ?_⟩
        · intro r
          cases final <;> trivial
        · intro _ _ _ h
          cases final <;> exact h
      · exact ⟨fun n ↦ ⟨rfl, rfl⟩, fun r ↦ trivial, fun _ _ _ h ↦ h⟩
  | lookup | find | startCommit | insertCollection | checkCollection | ensure | parse | persist
  | upsert | endCommit | cleanGet | cleanDelete | mark | markCommit => exact .inl rfl

theorem Inv.settle (h : Inv f st (.attempt final pc)) : Inv f st (IndexJob.settle final pc) := by
  rcases settle_eq_or final pc with heq | ⟨hp, hp', hok, hrel⟩
  · rwa [heq]
  · obtain ⟨r, hr, -, hc⟩ := h.row
    refine ⟨⟨r, hr, hok r, hc⟩, ?_, fun n hn ↦ h.kept n (hrel _ _ _ hn)⟩
    intro n hn
    exact covers_of_plain hr hp' (fun _ ↦ (hp n).2) (h.covered n hn)

/-- A step to a job for which every vector is covered while the row waits. -/
theorem Inv.of_transient (hr : st.files f = some r) (ht : r.status.transient) (hj : JobOk r j)
    (hc : st.chunks f = []) (hcov : ∀ n ∈ st.fileIds f, clears n j)
    (hk : ∀ n, relies st f j n → n ∈ st.fileIds f) : Inv f st j :=
  ⟨⟨r, hr, hj, fun _ ↦ hc⟩, fun n hn ↦ (covers_of_transient hr ht).mpr (hcov n hn), hk⟩

/-- Nothing is relied on before the commit of the rows. -/
theorem kept_of_ne (hc : st.chunks f = []) (hj : ∀ final cs, j ≠ .attempt final (.endCommit cs)) :
    ∀ n, relies st f j n → n ∈ st.fileIds f := by
  rintro n (h | h)
  · simp [hc] at h
  · split at h
    · exact absurd rfl (hj _ _)
    · exact h.elim

theorem ne_indexed (h : r.status.transient) : r.status ≠ .indexed := by
  intro hs
  simp [hs, FileStatus.transient] at h

/-- A commit of the row as the session has read it. -/
theorem Inv.writeFile {o : Tracked FileRow} (hr : st.files f = some o.saved)
    (hc : st.chunks f = []) (hw : st.writeFile f o = some st') :
    st'.files f = some o.now ∧ st'.chunks f = [] ∧ st'.fileIds f = st.fileIds f := by
  obtain ⟨st₁, hw', hrow⟩ := Stores.writeFile_saved hr
  obtain rfl : st₁ = st' := Option.some.inj (hw'.symm.trans hw)
  obtain ⟨hch, -, hchroma⟩ := Stores.writeFile_eq hw
  exact ⟨hrow, hch ▸ hc, fileIds_of_chroma hchroma⟩

/-- The awaited call of an attempt returns. -/
theorem Inv.resume (h : Inv f st (.attempt final pc)) (hparse : pc ≠ .parse)
    (he : pc.effect c f st = .ok st')
    (hcommit : ∀ cs, pc = .endCommit cs → ∀ n ∈ st.fileIds f, n ∈ cs.map Chunk.index) :
    Inv f st' (.attempt final (pc.resume f final st)) := by
  obtain ⟨⟨r, hr, hok, hc⟩, hcov, hkept⟩ := h
  cases pc with
  | lookup =>
      cases he
      simp only [IndexPc.resume, hr]
      split
      · next ht =>
          have hc := hc (ne_indexed ht)
          exact .of_transient hr ht ht hc (fun _ _ ↦ rfl) (kept_of_ne hc (by simp))
      · refine ⟨⟨r, hr, trivial, hc⟩, ?_, hkept⟩
        intro n hn
        exact covers_of_plain hr (fun _ ↦ ⟨rfl, rfl⟩) (fun _ ↦ rfl) (hcov n hn)
  | find tries =>
      cases he
      have ht : r.status.transient := hok
      have hc := hc (ne_indexed ht)
      simp only [IndexPc.resume, hr]
      exact .of_transient hr ht ⟨rfl, ht, rfl⟩ hc (fun _ _ ↦ rfl) (kept_of_ne hc (by simp))
  | startCommit o =>
      obtain ⟨rfl, ht, hnow⟩ := hok
      have hc := hc (ne_indexed ht)
      simp only [IndexPc.effect] at he
      split at he
      · next st₁ hw =>
          cases he
          obtain ⟨hrow, hc', -⟩ := Inv.writeFile hr hc hw
          have ht' : o.now.status.transient := by rw [hnow]; rfl
          exact .of_transient hrow ht' ht' hc' (fun _ _ ↦ rfl)
            (kept_of_ne hc' (by simp [IndexPc.resume]))
      · cases he
  | insertCollection | checkCollection | ensure =>
      cases he
      have ht : r.status.transient := hok
      have hc := hc (ne_indexed ht)
      exact .of_transient hr ht ht hc (fun _ _ ↦ rfl) (kept_of_ne hc (by simp [IndexPc.resume]))
  | persist cs =>
      have ht : r.status.transient := hok
      have hc := hc (ne_indexed ht)
      simp only [IndexPc.effect] at he
      split at he <;> cases he
      exact .of_transient hr ht ht hc (fun _ _ ↦ rfl) (kept_of_ne hc (by simp [IndexPc.resume]))
  | upsert cs =>
      cases he
      have ht : r.status.transient := hok
      have hc := hc (ne_indexed ht)
      obtain ⟨hfiles, hchunks⟩ := indexChunks_rows st.ensureCollection f cs
      refine .of_transient (by rw [hfiles]; exact hr) ht ht (by rw [hchunks]; exact hc)
        (fun _ _ ↦ rfl) ?_
      intro n hn
      rcases hn with hn | hn
      · rw [hchunks] at hn
        simp [Stores.ensureCollection, hc] at hn
      · exact mem_fileIds_indexChunks.mpr (.inr ⟨rfl, hn⟩)
  | endCommit cs =>
      have ht : r.status.transient := hok
      have hc := hc (ne_indexed ht)
      simp only [IndexPc.effect, hr, hc, List.nil_append, Except.ok.injEq] at he
      subst he
      have hrow : ((st.setFile f (some { r with status := .indexed })).setChunks f cs).files f =
          some { r with status := .indexed } := by simp [Stores.setFile, Stores.setChunks]
      have hchunks : ((st.setFile f (some { r with status := .indexed })).setChunks f cs).chunks f =
          cs := by simp [Stores.setChunks]
      refine ⟨⟨_, hrow, trivial, fun hne ↦ absurd rfl hne⟩, ?_, ?_⟩
      · intro n hn
        rw [covers_of_indexed hrow rfl, hchunks]
        exact hcommit cs rfl n hn
      · intro n hn
        refine hkept n (.inr ?_)
        rcases hn with hn | hn
        · rwa [hchunks] at hn
        · exact hn.elim
  | cleanGet e =>
      cases he
      have ht : r.status.transient := hok
      have hc := hc (ne_indexed ht)
      simp only [IndexPc.resume]
      split
      · next hids =>
          refine .of_transient hr ht ht hc ?_ (kept_of_ne hc (by simp))
          intro n hn
          rw [hids] at hn
          cases hn
      · refine .of_transient hr ht ht hc ?_ (kept_of_ne hc (by simp))
        intro n hn
        simp [clears, hn]
  | cleanDelete e ids =>
      cases he
      have ht : r.status.transient := hok
      have hc := hc (ne_indexed ht)
      refine .of_transient hr ht ht hc ?_ (kept_of_ne hc (by simp [IndexPc.resume]))
      intro n hn
      obtain ⟨hn, hnot⟩ := mem_fileIds_deleteIds.mp hn
      have hclears := (covers_of_transient hr ht).mp (hcov n hn)
      have hids : n ∉ ids := fun hmem ↦ hnot ⟨rfl, hmem⟩
      simpa [clears, IndexPc.resume, hids] using hclears
  | mark e share =>
      cases he
      have ht : r.status.transient := hok
      have hc := hc (ne_indexed ht)
      simp only [IndexPc.resume, hr]
      exact .of_transient hr ht ⟨rfl, ht, rfl⟩ hc
        (fun n hn ↦ (covers_of_transient hr ht).mp (hcov n hn)) (kept_of_ne hc (by simp))
  | markCommit e share o =>
      obtain ⟨rfl, ht, hnow⟩ := hok
      have hc := hc (ne_indexed ht)
      simp only [IndexPc.effect] at he
      split at he
      · next st₁ hw =>
          cases he
          obtain ⟨hrow, hc', hids⟩ := Inv.writeFile hr hc hw
          refine ⟨⟨_, hrow, trivial, fun _ ↦ hc'⟩, ?_, (kept_of_ne hc' (by simp [IndexPc.resume]))⟩
          intro n hn
          have hclears := (covers_of_transient hr ht).mp (hcov n (hids ▸ hn))
          have hretry : IndexPc.retry final e = true := hclears
          have ht' : o.now.status.transient := by rw [hnow, markRow, hretry]; rfl
          exact (covers_of_transient hrow ht').mpr rfl
      · cases he
  | parse => exact absurd rfl hparse
  | ended | raised =>
      cases he
      exact ⟨⟨r, hr, hok, hc⟩, hcov, hkept⟩

/-- The awaited call of an attempt raises. -/
theorem Inv.afterRaise (h : Inv f st (.attempt final pc))
    (hraise : abandons e (.attempt final pc) → st.NoVectors f) :
    Inv f st (.attempt final (pc.afterRaise e)) := by
  obtain ⟨⟨r, hr, hok, hc⟩, hcov, hkept⟩ := h
  have hmark : ∀ e' share, r.status.transient → pc.afterRaise e = .mark e' share →
      Inv f st (.attempt final (.mark e' share)) := by
    intro e' share ht heq
    have hc := hc (ne_indexed ht)
    refine .of_transient hr ht ht hc ?_ (kept_of_ne hc (by simp))
    intro n hn
    by_cases hretry : IndexPc.retry final e' = true
    · exact hretry
    · refine absurd hn (fileIds_of_noVectors (hraise ?_))
      simp [abandons, heq, hretry]
  cases pc with
  | find | insertCollection | checkCollection | ensure | parse | persist | upsert
  | cleanGet | cleanDelete => exact hmark _ _ hok rfl
  | startCommit => exact hmark _ _ hok.2.1 rfl
  | endCommit cs =>
      have hc := hc (ne_indexed hok)
      exact .of_transient hr hok hok hc (fun _ _ ↦ rfl)
        (kept_of_ne hc (by simp [IndexPc.afterRaise]))
  | lookup | mark | markCommit | ended | raised =>
      refine ⟨⟨r, hr, trivial, hc⟩, ?_, hkept⟩
      intro n hn
      exact covers_of_plain hr (fun _ ↦ ⟨rfl, rfl⟩) (fun _ ↦ rfl) (hcov n hn)

/-- The deadline of an attempt expires. -/
theorem Inv.timedOut (h : Inv f st (.attempt final pc)) : Inv f st (IndexJob.timedOut final) := by
  obtain ⟨⟨r, hr, -, hc⟩, hcov, hkept⟩ := h
  refine ⟨⟨r, hr, ?_, hc⟩, ?_, fun n hn ↦ hkept n (.inl ?_)⟩
  · cases final <;> trivial
  · intro n hn
    exact covers_of_plain hr plain_timedOut (fun _ ↦ rfl) (hcov n hn)
  · cases final <;> exact hn.resolve_right id

/-- A call of `_fail_file` returns. -/
theorem Inv.fail_resume (h : Inv f st j) (hj : ∀ final pc, j ≠ .attempt final pc)
    (he : j.effect c f st = .ok st') : Inv f st' (j.resume c f st) := by
  obtain ⟨⟨r, hr, hok, hc⟩, hcov, hkept⟩ := h
  cases j with
  | attempt final pc => exact absurd rfl (hj final pc)
  | failSelect =>
      cases he
      simp only [IndexJob.resume, hr]
      split
      · next ht =>
          have hc := hc (ne_indexed ht)
          exact .of_transient hr ht ⟨rfl, ht, rfl⟩ hc (fun _ _ ↦ rfl) (kept_of_ne hc (by simp))
      · refine ⟨⟨r, hr, trivial, hc⟩, ?_, hkept⟩
        intro n hn
        exact covers_of_plain hr (fun _ ↦ ⟨rfl, rfl⟩) (fun _ ↦ rfl) (hcov n hn)
  | failCommit o =>
      obtain ⟨rfl, ht, hnow⟩ := hok
      have hc := hc (ne_indexed ht)
      simp only [IndexJob.effect] at he
      split at he
      · next st₁ hw =>
          cases he
          obtain ⟨hrow, hc', -⟩ := Inv.writeFile hr hc hw
          refine ⟨⟨_, hrow, hnow, fun _ ↦ hc'⟩, fun n _ ↦ (covers_of_failed hrow hnow).mpr rfl,
            (kept_of_ne hc' (by simp [IndexJob.resume]))⟩
      · cases he
  | failGet =>
      cases he
      have hs : r.status = .failed := hok
      simp only [IndexJob.resume]
      split
      · next hids =>
          refine ⟨⟨r, hr, trivial, hc⟩, ?_, hkept⟩
          intro n hn
          rw [hids] at hn
          cases hn
      · refine ⟨⟨r, hr, hs, hc⟩, fun n hn ↦ (covers_of_failed hr hs).mpr ?_, hkept⟩
        simpa [failClears] using hn
  | failDelete ids =>
      cases he
      have hs : r.status = .failed := hok
      have hc := hc (by simp [hs])
      refine ⟨⟨r, hr, trivial, fun _ ↦ hc⟩, ?_,
        (kept_of_ne hc (by simp [IndexJob.resume, IndexJob.raiseTimeout]))⟩
      intro n hn
      obtain ⟨hn, hnot⟩ := mem_fileIds_deleteIds.mp hn
      have hmem : n ∈ ids := by simpa [failClears] using (covers_of_failed hr hs).mp (hcov n hn)
      exact absurd ⟨rfl, hmem⟩ hnot
  | returned | raised | cancelled =>
      cases he
      exact ⟨⟨r, hr, hok, hc⟩, hcov, hkept⟩

/-- A call of `_fail_file` raises. -/
theorem Inv.fail_afterRaise (h : Inv f st j) (hj : ∀ final pc, j ≠ .attempt final pc)
    (hraise : abandons e j → st.NoVectors f) : Inv f st (j.afterRaise c e) := by
  obtain ⟨⟨r, hr, hok, hc⟩, hcov, hkept⟩ := h
  cases j with
  | attempt final pc => exact absurd rfl (hj final pc)
  | failGet | failDelete =>
      exact ⟨⟨r, hr, trivial, hc⟩, fun n hn ↦ absurd hn (fileIds_of_noVectors (hraise rfl)), hkept⟩
  | failSelect | failCommit | returned | raised | cancelled =>
      refine ⟨⟨r, hr, trivial, hc⟩, ?_, hkept⟩
      intro n hn
      exact covers_of_plain hr (fun _ ↦ ⟨rfl, rfl⟩) (fun _ ↦ rfl) (hcov n hn)

/-- A thread that was left makes its next call. -/
theorem Inv.run {t : Thread} (h : Inv f x.stores x.job) (ht : x.spares f t) :
    Inv f (t.run x.stores).1 x.job := by
  obtain ⟨⟨r, hr, hok, hc⟩, hcov, hkept⟩ := h
  cases t with
  | ensure => exact ⟨⟨r, hr, hok, hc⟩, hcov, hkept⟩
  | get => exact ⟨⟨r, hr, hok, hc⟩, hcov, hkept⟩
  | upsert g cs =>
      obtain ⟨hfiles, hchunks⟩ := indexChunks_rows x.stores.ensureCollection g cs
      refine ⟨⟨r, by simp only [Thread.run, hfiles]; exact hr, hok, ?_⟩, ?_,
        fun n hn ↦ mem_fileIds_indexChunks.mpr (.inl (hkept n ?_))⟩
      · intro hs
        simp only [Thread.run, hchunks]
        exact hc hs
      · intro n hn
        apply (covers_congr (congrFun hfiles f) (congrFun hchunks f)).mpr
        rcases mem_fileIds_indexChunks.mp hn with hn | ⟨-, hn⟩
        · exact hcov n hn
        · obtain ⟨k, hk, rfl⟩ := List.mem_map.mp hn
          exact ht k hk
      · simp only [relies, Thread.run, hchunks] at hn
        exact hn
  | delete g ids =>
      refine ⟨⟨r, hr, hok, hc⟩, fun n hn ↦ hcov n (mem_fileIds_deleteIds.mp hn).1, ?_⟩
      intro n hn
      exact mem_fileIds_deleteIds.mpr ⟨hkept n hn, fun hmem ↦ ht n hmem.2 hn⟩

theorem Inv.job_resume (h : Inv f st j) (hparse : j.parsing = false)
    (he : j.effect c f st = .ok st')
    (hcommit : ∀ final cs, j = .attempt final (.endCommit cs) →
      ∀ n ∈ st.fileIds f, n ∈ cs.map Chunk.index) : Inv f st' (j.resume c f st) := by
  cases j with
  | attempt final pc =>
      refine Inv.settle (h.resume ?_ he fun cs hpc ↦ hcommit final cs (by rw [hpc]))
      rintro rfl
      cases hparse
  | failSelect | failCommit | failGet | failDelete | returned | raised | cancelled =>
      exact h.fail_resume (by simp) he

theorem Inv.job_afterRaise (h : Inv f st j) (hraise : abandons e j → st.NoVectors f) :
    Inv f st (j.afterRaise c e) := by
  cases j with
  | attempt final pc => exact Inv.settle (h.afterRaise hraise)
  | failSelect | failCommit | failGet | failDelete | returned | raised | cancelled =>
      exact h.fail_afterRaise (by simp) hraise

/-- The deadline expires; the awaited commit may have been executed. -/
theorem Inv.deadline {applied : Bool} (h : Inv f st (.attempt final pc))
    (hcommit : applied → ∀ cs, pc = .endCommit cs → ∀ n ∈ st.fileIds f, n ∈ cs.map Chunk.index)
    (hparse : applied → pc ≠ .parse) :
    Inv f ((IndexJob.attempt final pc).mayApply c f st applied) (IndexJob.timedOut final) := by
  cases applied with
  | false => exact h.timedOut
  | true =>
      cases he : (IndexJob.attempt final pc).effect c f st with
      | ok st' =>
          simp only [IndexJob.mayApply, he]
          exact (h.resume (hparse rfl) he (hcommit rfl)).timedOut
      | error e =>
          simp only [IndexJob.mayApply, he]
          exact h.timedOut

/-- A call that may have been executed is not the parser's. -/
theorem mayApply_parse {applied : Bool} :
    (IndexJob.attempt final .parse).mayApply c f st applied = st := by
  cases applied <;> rfl

theorem Inv.step (h : Inv f x.stores x.job) (hk : Kept c f x m) (hs : x.step c f m = some x') :
    Inv f x'.stores x'.job := by
  cases m with
  | ok =>
      obtain ⟨⟨st', j'⟩, hstep, rfl⟩ := Option.map_eq_some_iff.mp hs
      simp only [IndexJob.step] at hstep
      split at hstep
      · cases hstep
      split at hstep
      · cases hstep
      next hparse =>
      have hparse : x.job.parsing = false := by
        cases hp : x.job.parsing with
        | false => rfl
        | true => exact absurd (.inl hp) hparse
      split at hstep
      · next st₁ he =>
          cases hstep
          refine h.job_resume hparse he fun final cs hj ↦ hk.commit cs ?_
          simp [Run.commits, hj]
      · next e he =>
          cases hstep
          refine h.job_afterRaise (hk.raise e ?_)
          simp [Run.raises, he]
  | parsed cs =>
      obtain ⟨⟨st', j'⟩, hstep, rfl⟩ := Option.map_eq_some_iff.mp hs
      simp only [IndexJob.step] at hstep
      split at hstep
      · cases hstep
      split at hstep
      · next final hj =>
          cases hstep
          rw [hj] at h
          obtain ⟨⟨r, hr, ht, hc⟩, -, -⟩ := h
          have hc := hc (ne_indexed ht)
          exact .of_transient hr ht ht hc (fun _ _ ↦ rfl) (kept_of_ne hc (by simp))
      · cases hstep
  | raised e =>
      obtain ⟨⟨st', j'⟩, hstep, rfl⟩ := Option.map_eq_some_iff.mp hs
      simp only [IndexJob.step] at hstep
      split at hstep
      · cases hstep
      · cases hstep
        exact h.job_afterRaise (hk.raise e rfl)
  | deadline applied =>
      obtain ⟨⟨st', j'⟩, hstep, rfl⟩ := Option.map_eq_some_iff.mp hs
      simp only [IndexJob.step] at hstep
      split at hstep
      · cases hstep
      split at hstep
      · next final pc hj =>
          cases hstep
          rw [hj] at h ⊢
          by_cases hparse : pc = .parse
          · subst hparse
            rw [mayApply_parse]
            exact h.timedOut
          · refine h.deadline (fun ha cs hpc ↦ hk.commit cs ?_) fun _ ↦ hparse
            have ha : applied = true := (of_decide_eq_true ha).1
            simp [Run.commits, hj, hpc, ha]
      · cases hstep
  | thread n =>
      obtain ⟨t, ht, rfl⟩ := Option.map_eq_some_iff.mp hs
      exact h.run (hk.thread n rfl t ht)

end

/-- **A timed-out index leaves nothing behind**, in every run in which no thread that was left
comes too late and the job neither gives up nor commits while there are vectors that it does not
know of: once the job has ended, a failed file has no vectors, and the vectors of an indexed one
have the ids of its chunk rows. -/
theorem settled_of_kept (c : Config) (f : FileId) (st : Stores) (hb : st.Bare f)
    (hv : st.NoVectors f) (x : Run) (h : (timed c f st).Reach (Kept c f) x) (hover : x.job.isOver) :
    ∃ r, x.stores.files f = some r ∧ (r.status = .failed → x.stores.NoVectors f) ∧
      (r.status = .indexed →
        ∀ n, n ∈ x.stores.fileIds f ↔ n ∈ (x.stores.chunks f).map Chunk.index) := by
  have hinit : Inv f st (.attempt false .lookup) := by
    obtain ⟨⟨r, hr, ht⟩, hc⟩ := hb
    refine .of_transient hr ht trivial hc ?_ (kept_of_ne hc (by simp))
    intro n hn
    exact absurd hn (fileIds_of_noVectors hv)
  have hinv : Inv f x.stores x.job :=
    h.invariant (P := fun x ↦ Inv f x.stores x.job) hinit fun _ _ _ hi hk hn ↦ hi.step hk hn
  obtain ⟨⟨r, hr, -, -⟩, hcov, hkept⟩ := hinv
  refine ⟨r, hr, ?_, fun hs n ↦ ⟨?_, fun hn ↦ hkept n (.inl hn)⟩⟩
  · intro hs v hv hf
    have hn : v.index ∈ x.stores.fileIds f := Stores.mem_fileIds.mpr ⟨v, hv, hf, rfl⟩
    have hclears := (covers_of_failed hr hs).mp (hcov _ hn)
    cases hj : x.job with
    | failGet | failDelete => simp [hj, IndexJob.isOver] at hover
    | attempt | failSelect | failCommit | returned | raised | cancelled =>
        simp [hj, failClears] at hclears
  · intro hn
    exact (covers_of_indexed hr hs).mp (hcov n hn)

/-! ## Two runs -/

instance (st : Stores) (f : FileId) (j : IndexJob) (n : Nat) : Decidable (covers st f j n) := by
  unfold covers
  split <;> infer_instance

instance (st : Stores) (f : FileId) (j : IndexJob) (n : Nat) : Decidable (relies st f j n) := by
  unfold relies
  split <;> infer_instance

instance (f : FileId) (x : Run) (t : Thread) : Decidable (x.spares f t) := by
  unfold Run.spares
  split <;> infer_instance

instance (st : Stores) (f : FileId) : Decidable (st.NoVectors f) :=
  inferInstanceAs (Decidable (∀ v ∈ st.vectors, v.file ≠ f))

/-- What a thread that is to make its call may do. -/
def threadOk (f : FileId) (x : Run) : Move → Prop
  | .thread n => ∀ t ∈ x.threads[n]?, x.spares f t
  | _ => True

instance (f : FileId) (x : Run) (m : Move) : Decidable (threadOk f x m) := by
  unfold threadOk
  split <;> infer_instance

theorem kept_iff {c : Config} {f : FileId} {x : Run} {m : Move} :
    Kept c f x m ↔ threadOk f x m ∧
      (∀ e ∈ x.raises c f m, abandons e x.job → x.stores.NoVectors f) ∧
      ∀ cs ∈ x.commits m, ∀ n ∈ x.stores.fileIds f, n ∈ cs.map Chunk.index := by
  constructor
  · rintro ⟨ht, hr, hc⟩
    refine ⟨?_, hr, hc⟩
    cases m with
    | thread n => exact ht n rfl
    | ok | parsed | raised | deadline => trivial
  · rintro ⟨ht, hr, hc⟩
    refine ⟨?_, hr, hc⟩
    rintro n rfl
    exact ht

instance (c : Config) (f : FileId) (x : Run) (m : Move) : Decidable (Kept c f x m) :=
  decidable_of_iff _ kept_iff.symm

/-- The moves of an attempt up to its upsert. -/
def toUpsert (cs : List Chunk) : List Move := [.ok, .ok, .ok, .ok, .ok, .ok, .parsed cs, .ok]

/-- The first attempt runs out of time while it stores the vectors; they are stored while the
second one parses. -/
def retriedRun : List Move :=
  toUpsert [⟨0, some 1, "text"⟩] ++ [.deadline false] ++
  [.ok, .ok, .ok, .ok, .ok, .ok, .thread 0, .parsed [⟨0, some 1, "text"⟩], .ok, .ok, .ok]

/-- The hypotheses of `settled_of_kept` are met by a run with a thread that was left. -/
theorem settled_retriedRun : ∃ x, (timed .sample 0 Attempt.waiting).Reach (Kept .sample 0) x ∧
    x.job = .returned ∧ x.threads = [] ∧
    ∃ r, x.stores.files 0 = some r ∧ r.status = .indexed ∧
      ∀ n, n ∈ x.stores.fileIds 0 ↔ n ∈ (x.stores.chunks 0).map Chunk.index := by
  obtain ⟨x, hx, hend⟩ := System.Reach.of_exec (S := timed .sample 0 Attempt.waiting)
    (g := Kept .sample 0) (l := retriedRun)
    (f := fun x ↦ (x.job, x.threads, (x.stores.files 0).map FileRow.status))
    (b := (.returned, [], some .indexed)) (by decide)
  simp only [Prod.mk.injEq] at hend
  obtain ⟨hjob, hthreads, hstatus⟩ := hend
  obtain ⟨r, hr, -, hindexed⟩ := settled_of_kept .sample 0 Attempt.waiting
    ⟨⟨⟨.pending, none⟩, rfl, rfl⟩, rfl⟩ (by decide) x hx (by rw [hjob]; rfl)
  have hs : r.status = .indexed := by simpa [hr] using hstatus
  exact ⟨x, hx, hjob, hthreads, r, hr, hs, hindexed hs⟩

/-- The first attempt runs out of time while it stores the vectors and the second one while it
parses; `_fail_file` finds no vectors, and then they are stored. -/
def lateThreadRun : List Move :=
  toUpsert [⟨0, some 1, "text"⟩] ++ [.deadline false] ++
  [.ok, .ok, .ok, .ok, .ok, .ok, .deadline false, .ok, .ok, .ok, .thread 0]

/-- A vector of a failed file can be left behind. -/
theorem lateThreadRun_leaves_vector : ∃ x, (timed .sample 0 Attempt.waiting).Reachable x ∧
    x.job.isOver = true ∧ x.threads = [] ∧ (x.stores.files 0).map FileRow.status = some .failed ∧
    ⟨0, 0, "text"⟩ ∈ x.stores.vectors := by
  obtain ⟨x, hx, hend⟩ := System.Reach.of_exec (S := timed .sample 0 Attempt.waiting)
    (g := fun _ _ ↦ True) (l := lateThreadRun)
    (f := fun x ↦ (x.job.isOver, x.threads, (x.stores.files 0).map FileRow.status,
      x.stores.vectors))
    (b := (true, [], some .failed, [⟨0, 0, "text"⟩])) (by decide)
  simp only [Prod.mk.injEq] at hend
  obtain ⟨hjob, hthreads, hstatus, hvectors⟩ := hend
  exact ⟨x, hx, hjob, hthreads, hstatus, by simp [hvectors]⟩

end Adapta.Files.Deadline
