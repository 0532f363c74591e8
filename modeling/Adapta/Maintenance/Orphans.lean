import Adapta.Jobs.Calm
import Adapta.Files.Rows
import Adapta.Maintenance.Sweep

/-!
# The sweep and live files

A sweep decides about a file when Redis has told it that no job of the file is live, and
acts on the decision at its commit.  It is right in every run in which, at each decision,
the file's upload is not just about to enqueue the job, the row has not become terminal
since it was selected, and the metadata is still what the sweep has read
(`sweeps_orphans_only`).  Nothing in the code sees to that: `staleSweepRuns` are two runs, in
one of which the sweep fails a file that is `indexed`, and in the other one whose job is
queued right after.
-/

namespace Adapta.Maintenance

open Lib Files
open Jobs (JobId JobMeta JobStatus Kind Payload Redis Task Calm Tracks)

variable {c : Config} {s s' : State} {x : Act} {f g : FileId}

/-! ## The condition -/

/-- Files whose job is about to be enqueued, is in the hands of the worker, or is queued. -/
def State.live (s : State) : List FileId := s.uploads ++ s.jobs.held

/-- The file a step of a sweep decides to fail, with the status it has read for it. -/
def State.fails (s : State) : Act → Option (FileId × Option JobStatus)
  | .sweep w =>
      match s.sweepAt w with
      | some (startup, .check f _ _ _) =>
          if liveness startup (s.jobs.redis.status f) = .dead then
            some (f, s.jobs.redis.status f)
          else none
      | some (_, .alive f _ _ _) => if s.heartbeat then none else some (f, some .running)
      | _ => none
  | _ => none

/-- When a sweep decides to fail a file, its upload is not between its commit and the
enqueueing, its row is not terminal, and its recorded status is the one the sweep has read. -/
def Checked (s : State) (x : Act) : Prop :=
  ∀ u ∈ s.fails x, u.1 ∉ s.uploads ∧ (s.stores.files u.1).all (·.status.transient) ∧
    s.jobs.redis.status u.1 = u.2

instance (s : State) (x : Act) : Decidable (Checked s x) :=
  inferInstanceAs (Decidable (∀ u ∈ s.fails x, _))

/-! ## The invariant -/

/-- An index job is about its own id. -/
def Targeted (m : JobMeta) : Prop := m.kind = some .index → m.target = some m.jobId

/-- The metadata in Redis, in reads and in hands is about its own id. -/
structure AllTargeted (j : Jobs.State) : Prop where
  jobs : ∀ i m, j.redis.get i = some m → Targeted m
  raws : ∀ y ∈ j.raws, ∀ m, y.2 = some m → Targeted m
  task : ∀ t p, j.pc = .job t p → Targeted t.job

/-- The row of `f` matters to the worker: it is `pending` or `processing`, or the job in
flight has found it so. -/
def State.Watched (s : State) (f : FileId) : Prop :=
  s.stores.Transient f ∨ ∃ b, s.body = some (f, b) ∧ b.active = true

/-- A sweep has decided to fail `f`: if the row is still there, no job of it is live. -/
def State.Condemned (s : State) (f : FileId) : Prop :=
  f < s.nextId ∧ ∀ r, s.stores.files f = some r → f ∉ s.live ∧ r.status ≠ .indexed

/-- A sweep has failed `f`. -/
def State.Settled (s : State) (f : FileId) : Prop :=
  f < s.nextId ∧ f ∉ s.live ∧ ¬s.stores.Transient f

/-- What is known of the rows a sweep has still to check. -/
def TodoOk (s : State) (todo : List (FileId × FileRow)) : Prop :=
  ∀ y ∈ todo, y.1 < s.nextId ∧ y.2.status.transient = true

/-- What is known of the rows it has assigned. -/
def SweptOk (s : State) (swept : List (FileId × Tracked FileRow)) : Prop :=
  ∀ y ∈ swept, s.Condemned y.1 ∧ y.2.saved.status.transient = true ∧ y.2.now.status = .failed

def SweepOk (s : State) : Sweep → Prop
  | .select => True
  | .check f r todo swept | .alive f r todo swept => TodoOk s ((f, r) :: todo) ∧ SweptOk s swept
  | .commit swept => SweptOk s swept
  | .report f rest => ∀ g ∈ f :: rest, s.Settled g
  | .reportSet _ _ rest => ∀ g ∈ rest, s.Settled g

/-- The file of the index job whose body the task in flight is in. -/
def bodyId : Jobs.Pc → Option FileId
  | .job t _ => if t.pc = .body ∧ t.job.kind = some .index then some t.job.jobId else none
  | _ => none

/-- What is known of the queue and its worker by themselves. -/
structure JobsInv (j : Jobs.State) : Prop where
  named : Jobs.Named j
  timed : Jobs.Timed j
  inStep : Jobs.InStep j
  targeted : AllTargeted j

structure Inv (s : State) : Prop where
  jobs : JobsInv s.jobs
  nodup : s.live.Nodup
  live_lt : ∀ f ∈ s.live, f < s.nextId
  rows_lt : ∀ f, s.stores.files f ≠ none → f < s.nextId
  track : ∀ f, s.Watched f → Tracks s.jobs f .index
  body : s.body.map Prod.fst = bodyId s.jobs.pc
  sync : ∀ f b, s.body = some (f, b) → b.InSync s.stores f
  sweeps : ∀ sw ∈ s.sweeps, SweepOk s sw
  startup : ∀ sw, s.startup = some sw → SweepOk s sw ∧ s.jobs.pc = .startBeat
  reports : ∀ y ∈ s.jobs.sweeps, s.Settled y.1
  beat : inLoop s.jobs.pc = true → s.heartbeat = true

/-! ## The queue by itself -/

theorem Targeted.updateMeta {raw : Option JobMeta} (j : JobId) (u : Jobs.Update)
    (h : ∀ m, raw = some m → Targeted m) : Targeted (Jobs.updateMeta raw j u).job := by
  cases raw with
  | none => rintro ⟨⟩
  | some m => exact h m rfl

/-- The job the loop handles is the one it has handled before, or one it has just read. -/
theorem job_of_calm {j j' : Jobs.State} {a : Jobs.Act} (h : Calm j a j') {t' : Task}
    {p' : Jobs.JobPc} (hpc' : j'.pc = .job t' p') :
    (∃ t p, j.pc = .job t p ∧ t.job = t'.job) ∨ ∃ i, j.redis.get i = some t'.job := by
  have hsame : j'.pc = j.pc → (∃ t p, j.pc = .job t p ∧ t.job = t'.job) ∨
      ∃ i, j.redis.get i = some t'.job := fun he ↦ .inl ⟨t', p', he ▸ hpc', rfl⟩
  cases h with
  | enqueue | expire | sweepGet | sweepSet => exact hsame rfl
  | start | startBeat | warm | loopBeat | pop | requeuePush | die => cases hpc'
  | readyBeat | popEmpty | fetchNone | wakeUp => exact absurd hpc' (Jobs.loopTop_ne_job _ _ _)
  | failSet => exact absurd hpc' (Jobs.loopTop_ne_job _ _ _)
  | jobBeat hpc =>
      simp only [Jobs.State.afterBeat] at hpc'
      split at hpc'
      · exact absurd hpc' (Jobs.loopTop_ne_job _ _ _)
      all_goals
        cases hpc'
        exact .inl ⟨_, _, hpc, rfl⟩
  | fetch hpc hm =>
      cases hpc'
      exact .inr ⟨_, hm⟩
  | wake hpc | failGet hpc | requeueGet hpc | requeueSet hpc =>
      cases hpc'
      exact .inl ⟨_, _, hpc, rfl⟩
  | sigterm =>
      simp only [Jobs.State.requestShutdown] at hpc'
      split at hpc'
      · next hpc =>
          cases hpc'
          exact .inl ⟨_, _, hpc, rfl⟩
      · exact .inl ⟨t', p', hpc', rfl⟩
  | task hpc =>
      cases hpc'
      exact .inl ⟨_, _, hpc, rfl⟩

/-- Whoever enqueues an index job enqueues it under the id of its file. -/
def EnqueuesOwn (a : Jobs.Act) : Prop :=
  ∀ j p, a = .enqueue j .index p → p.id = some j

theorem AllTargeted.step {j j' : Jobs.State} {a : Jobs.Act} (h : AllTargeted j)
    (hc : Calm j a j') (ha : EnqueuesOwn a) (hn : Jobs.step j a = some j') : AllTargeted j' where
  jobs i m hm := by
    rcases Jobs.step_jobs hn with he | ⟨k, e, hw, he⟩
    · exact h.jobs i m (by rw [← hm, Redis.get, Redis.get, he])
    by_cases hi : i = k
    · subst hi
      have hraw : ∀ raw, (i, raw) ∈ j.raws → ∀ m, raw = some m → Targeted m :=
        fun raw hr ↦ h.raws _ hr
      rw [Redis.get, he, Function.update_self] at hm
      cases hw with
      | enqueue _ k p =>
          simp only [Redis.enqueue, Function.update_self, Option.map_some, Option.some.injEq] at hm
          rw [← hm]
          rintro ⟨⟩
          simp [JobMeta.target, ha i p rfl]
      | expire => cases hm
      | sweep hx =>
          cases hm
          exact .updateMeta _ _ (hraw _ (by simp [Jobs.State.raws, hx]))
      | fail hpc | requeue hpc =>
          cases hm
          exact .updateMeta _ _
            (hraw _ (by simp [Jobs.State.raws, hpc, Jobs.Pc.raws, Jobs.JobPc.raws]))
      | run ht hpc | done ht hpc =>
          cases hm
          exact .updateMeta _ _ (hraw _
            (Jobs.raws_of_mem_tasks ht (by simp [Jobs.Task.raws, hpc, Jobs.TaskPc.raws])))
    · rw [Redis.get, he, Function.update_of_ne hi] at hm
      exact h.jobs i m hm
  raws y hy m hm := by
    rcases Jobs.mem_raws_of_step hn hy with hy | ⟨i, rfl⟩
    · exact h.raws y hy m hm
    · exact h.jobs i m hm
  task t p hpc := by
    rcases job_of_calm hc hpc with ⟨t₀, p₀, hpc₀, he⟩ | ⟨i, hi⟩
    · rw [← he]
      exact h.task t₀ p₀ hpc₀
    · exact h.jobs i _ hi

theorem JobsInv.init : JobsInv Jobs.State.init where
  named := .init
  timed := .init
  inStep := .of_idle rfl (by rintro t p ⟨⟩)
  targeted := by
    refine ⟨?_, ?_, by rintro t p ⟨⟩⟩
    · intro i m hm
      simp [Jobs.State.init, Redis.empty, Redis.get] at hm
    · intro y hy
      simp [Jobs.State.init, Jobs.State.raws, Jobs.Pc.raws] at hy

theorem JobsInv.step {j j' : Jobs.State} {a : Jobs.Act} (h : JobsInv j) (ha : a.calm = true)
    (he : EnqueuesOwn a) (hn : Jobs.step j a = some j') : JobsInv j' where
  named := h.named.step hn
  timed := h.timed.step hn
  inStep := by
    refine h.inStep.step ?_ hn
    intro hb
    simp only [Jobs.BeatLost] at hb
    split at hb
    · cases ha
    · exact hb
  targeted := h.targeted.step (.of_step ha hn) he hn

/-! ## What a step may do to the others -/

/-- A step makes no file live that is not new, makes no row that is not new, and leaves
those of idle files as they are, or fails them. -/
structure Still (s s' : State) : Prop where
  next_le : s.nextId ≤ s'.nextId
  live : ∀ f ∈ s'.live, f ∈ s.live ∨ s.nextId ≤ f
  none : ∀ f, f < s.nextId → s.stores.files f = none → s'.stores.files f = none
  rows : ∀ f, f ∉ s.live → ∀ r, s'.stores.files f = some r →
    s.stores.files f = some r ∨ s.nextId ≤ f ∨ r.status = .failed

namespace Still

theorem not_live (h : Still s s') (hlt : f < s.nextId) (hf : f ∉ s.live) : f ∉ s'.live := by
  intro hl
  rcases h.live f hl with hl | hge
  · exact hf hl
  · exact Nat.not_lt_of_le hge hlt

theorem condemned (h : Still s s') (hf : s.Condemned f) : s'.Condemned f := by
  refine ⟨Nat.lt_of_lt_of_le hf.1 h.next_le, ?_⟩
  intro r' hr'
  cases hr : s.stores.files f with
  | none =>
      rw [h.none f hf.1 hr] at hr'
      cases hr'
  | some r =>
      obtain ⟨hl, hst⟩ := hf.2 r hr
      refine ⟨h.not_live hf.1 hl, ?_⟩
      rcases h.rows f hl r' hr' with he | hge | he
      · cases hr.symm.trans he
        exact hst
      · exact absurd hf.1 (Nat.not_lt_of_le hge)
      · rw [he]
        decide

theorem settled (h : Still s s') (hf : s.Settled f) : s'.Settled f := by
  obtain ⟨hlt, hl, hrow⟩ := hf
  refine ⟨Nat.lt_of_lt_of_le hlt h.next_le, h.not_live hlt hl, ?_⟩
  rintro ⟨r, hr, ht⟩
  rcases h.rows f hl r hr with he | hge | he
  · exact hrow ⟨r, he, ht⟩
  · exact absurd hlt (Nat.not_lt_of_le hge)
  · rw [he] at ht
    cases ht

theorem sweptOk (h : Still s s') {swept : List (FileId × Tracked FileRow)} (hs : SweptOk s swept) :
    SweptOk s' swept := fun y hy ↦ ⟨h.condemned (hs y hy).1, (hs y hy).2⟩

theorem sweepOk (h : Still s s') {sw : Sweep} (hs : SweepOk s sw) : SweepOk s' sw := by
  cases sw with
  | select => trivial
  | check | alive =>
      refine ⟨?_, h.sweptOk hs.2⟩
      intro y hy
      exact ⟨Nat.lt_of_lt_of_le (hs.1 y hy).1 h.next_le, (hs.1 y hy).2⟩
  | commit => exact h.sweptOk hs
  | report | reportSet => exact fun g hg ↦ h.settled (hs g hg)

end Still

/-! ## Decisions -/

theorem inLoop_of_hand {pc : Jobs.Pc} {j : JobId} (h : pc.hand = some j) : inLoop pc = true := by
  cases pc <;> first | rfl | cases h

/-- A file with a transient row that is not about to be enqueued is not live, if Redis says
so at this moment. -/
theorem Inv.not_live (h : Inv s) (hup : f ∉ s.uploads) (ht : s.stores.Transient f)
    (hst : s.jobs.redis.status f ≠ some .queued)
    (hrun : s.jobs.redis.status f = some .running → inLoop s.jobs.pc = false) : f ∉ s.live := by
  have htr := h.track f (.inl ht)
  rw [State.live, List.mem_append, not_or, Jobs.State.held, List.mem_append, not_or]
  refine ⟨hup, ?_, ?_⟩
  · intro hh
    have hhand := Option.mem_toList.mp hh
    obtain ⟨x, hx, he⟩ := (htr.has_of_hand hhand).status
    simp only [List.mem_cons, List.not_mem_nil, or_false] at hx
    rcases hx with rfl | rfl
    · exact hst he
    · rw [inLoop_of_hand hhand] at hrun
      cases hrun he
  · intro hq
    obtain ⟨x, hx, he⟩ := (htr.queue hq).status
    rw [List.mem_singleton.mp hx] at he
    exact hst he

/-- A decision the condition allows is right. -/
theorem Inv.condemned (h : Inv s) (hlt : f < s.nextId) (hup : f ∉ s.uploads)
    (hrow : (s.stores.files f).all (·.status.transient) = true)
    (hst : s.jobs.redis.status f ≠ some .queued)
    (hrun : s.jobs.redis.status f = some .running → inLoop s.jobs.pc = false) :
    s.Condemned f := by
  refine ⟨hlt, ?_⟩
  intro r hr
  rw [hr] at hrow
  refine ⟨h.not_live hup ⟨r, hr, hrow⟩ hst hrun, ?_⟩
  intro hi
  have hrow : r.status.transient = true := hrow
  rw [hi] at hrow
  cases hrow

/-! ## Assembly -/

/-- The invariant after a step: what is new is checked, the rest is kept. -/
theorem Inv.next (h : Inv s) (hst : Still s s') (hj : JobsInv s'.jobs) (hnd : s'.live.Nodup)
    (hlt : ∀ f ∈ s'.live, f < s'.nextId)
    (hrows : ∀ f, s'.stores.files f ≠ none → f < s'.nextId)
    (htr : ∀ f, s'.Watched f → Tracks s'.jobs f .index)
    (hb : s'.body.map Prod.fst = bodyId s'.jobs.pc)
    (hsync : ∀ f b, s'.body = some (f, b) → b.InSync s'.stores f)
    (hsw : ∀ sw ∈ s'.sweeps, sw ∈ s.sweeps ∨ SweepOk s' sw)
    (hup : ∀ sw, s'.startup = some sw →
      (s.startup = some sw ∨ SweepOk s' sw) ∧ s'.jobs.pc = .startBeat)
    (hrep : ∀ y ∈ s'.jobs.sweeps, y ∈ s.jobs.sweeps ∨ s'.Settled y.1)
    (hbeat : inLoop s'.jobs.pc = true → s'.heartbeat = true) : Inv s' where
  jobs := hj
  nodup := hnd
  live_lt := hlt
  rows_lt := hrows
  track := htr
  body := hb
  sync := hsync
  sweeps sw hmem := by
    rcases hsw sw hmem with hold | hnew
    · exact hst.sweepOk (h.sweeps sw hold)
    · exact hnew
  startup sw hs := by
    obtain ⟨hold | hnew, hpc⟩ := hup sw hs
    · exact ⟨hst.sweepOk (h.startup sw hold).1, hpc⟩
    · exact ⟨hnew, hpc⟩
  reports y hy := by
    rcases hrep y hy with hold | hnew
    · exact hst.settled (h.reports y hold)
    · exact hnew
  beat := hbeat

/-! ## Uploads, deletions and threads -/

theorem Inv.init : Inv State.init where
  jobs := .init
  nodup := List.nodup_nil
  live_lt := by simp [State.live, State.init, Jobs.State.init, Jobs.State.held, Jobs.Pc.hand,
    Redis.empty]
  rows_lt f h := absurd rfl h
  track f hf := by
    rcases hf with ⟨r, hr, -⟩ | ⟨b, hb, -⟩
    · cases hr
    · cases hb
  body := rfl
  sync := by rintro f b ⟨⟩
  sweeps := by rintro sw ⟨⟩
  startup := by rintro sw ⟨⟩
  reports := by rintro y ⟨⟩
  beat := by rintro ⟨⟩

/-- The file of the body in flight is in the worker's hands. -/
theorem Inv.body_hand (h : Inv s) {b : IndexJob} (hb : s.body = some (f, b)) :
    s.jobs.pc.hand = some f := by
  have hid := h.body
  rw [hb] at hid
  simp only [bodyId] at hid
  split at hid
  · next t p hpc =>
      split at hid
      · rw [hpc]
        exact hid.symm
      · cases hid
  · cases hid

theorem State.mem_live_of_hand (h : s.jobs.pc.hand = some f) : f ∈ s.live := by
  rw [State.live, Jobs.State.held]
  exact List.mem_append_right _ (List.mem_append_left _ (Option.mem_toList.mpr h))

theorem Inv.body_live (h : Inv s) {b : IndexJob} (hb : s.body = some (f, b)) : f ∈ s.live :=
  State.mem_live_of_hand (h.body_hand hb)

theorem Inv.watched_lt (h : Inv s) (hf : s.Watched f) : f < s.nextId := by
  rcases hf with ⟨r, hr, -⟩ | ⟨b, hb, -⟩
  · exact h.rows_lt f (by simp [hr])
  · exact h.live_lt f (h.body_live hb)

theorem Inv.next_not_live (h : Inv s) : s.nextId ∉ s.live :=
  fun hl ↦ Nat.lt_irrefl _ (h.live_lt _ hl)

/-- Rows disappear, and nothing else happens. -/
theorem Inv.stores (h : Inv s) {st : Stores} (l : List Thread)
    (hrow : ∀ f r, st.files f = some r → s.stores.files f = some r) :
    Inv { s with stores := st, threads := l } := by
  have hwatched : ∀ f, State.Watched { s with stores := st, threads := l } f → s.Watched f := by
    rintro f (⟨r, hr, ht⟩ | hb)
    · exact .inl ⟨r, hrow f r hr, ht⟩
    · exact .inr hb
  have hnone : ∀ f, s.stores.files f = none → st.files f = none := by
    intro f hn
    cases hr : st.files f with
    | none => rfl
    | some r =>
        rw [hrow f r hr] at hn
        cases hn
  refine h.next ⟨Nat.le_refl _, fun _ hl ↦ .inl hl, fun f _ hn ↦ hnone f hn, ?_⟩ h.jobs h.nodup
    h.live_lt (fun f hne ↦ h.rows_lt f fun hn ↦ hne (hnone f hn))
    (fun f hf ↦ h.track f (hwatched f hf)) h.body (fun f b hb ↦ (h.sync f b hb).of_row (hrow f))
    (fun _ hsw ↦ .inl hsw) (fun sw hsw ↦ ⟨.inl hsw, (h.startup sw hsw).2⟩) (fun _ hy ↦ .inl hy)
    h.beat
  exact fun f _ r hr ↦ .inl (hrow f r hr)

theorem Inv.upload (h : Inv s) :
    Inv { s with
      stores := s.stores.setFile s.nextId (some ⟨.pending, none⟩)
      nextId := s.nextId + 1
      uploads := s.nextId :: s.uploads } := by
  have hne : ∀ f, f < s.nextId → (s.stores.setFile s.nextId (some ⟨.pending, none⟩)).files f =
      s.stores.files f := fun f hlt ↦ Function.update_of_ne (Nat.ne_of_lt hlt) _ _
  have hlive : ∀ f ∈ s.nextId :: s.live, f ∈ s.live ∨ s.nextId ≤ f := by
    intro f hf
    rcases List.mem_cons.mp hf with rfl | hf
    · exact .inr (Nat.le_refl _)
    · exact .inl hf
  have hrow : ∀ f r, (s.stores.setFile s.nextId (some ⟨.pending, none⟩)).files f = some r →
      s.stores.files f = some r ∨ f = s.nextId := by
    intro f r hr
    by_cases hf : f = s.nextId
    · exact .inr hf
    · exact .inl ((Function.update_of_ne hf _ _).symm.trans hr)
  refine h.next ⟨Nat.le_succ _, hlive, fun f hlt hn ↦ (hne f hlt).trans hn, ?_⟩ h.jobs
    (List.nodup_cons.mpr ⟨h.next_not_live, h.nodup⟩) ?_ ?_ ?_ h.body ?_ (fun _ hsw ↦ .inl hsw)
    (fun sw hsw ↦ ⟨.inl hsw, (h.startup sw hsw).2⟩) (fun _ hy ↦ .inl hy) h.beat
  · intro f _ r hr
    rcases hrow f r hr with hr | rfl
    · exact .inl hr
    · exact .inr (.inl (Nat.le_refl _))
  · intro f hf
    rcases List.mem_cons.mp hf with rfl | hf
    · exact Nat.lt_succ_self _
    · exact Nat.lt_succ_of_lt (h.live_lt f hf)
  · intro f hf
    obtain ⟨r, hr⟩ := Option.ne_none_iff_exists'.mp hf
    rcases hrow f r hr with hr | rfl
    · exact Nat.lt_succ_of_lt (h.rows_lt f (by simp [hr]))
    · exact Nat.lt_succ_self _
  · intro f hf
    by_cases hf' : f = s.nextId
    · subst hf'
      exact .of_not_held fun hl ↦ h.next_not_live (List.mem_append_right _ hl)
    · apply h.track f
      rcases hf with ⟨r, hr, ht⟩ | hb
      · exact .inl ⟨r, (hrow f r hr).resolve_right hf', ht⟩
      · exact .inr hb
  · intro f b hb
    apply (h.sync f b hb).of_row
    intro r hr
    rwa [hne f (h.live_lt f (h.body_live hb))] at hr

theorem Inv.uploadLost (h : Inv s) (f : FileId) : Inv { s with uploads := s.uploads.erase f } := by
  have hsub : (State.live { s with uploads := s.uploads.erase f }).Sublist s.live :=
    List.erase_sublist.append_right _
  refine h.next ⟨Nat.le_refl _, fun g hg ↦ .inl (hsub.subset hg), fun _ _ hn ↦ hn,
    fun _ _ _ hr ↦ .inl hr⟩ h.jobs (h.nodup.sublist hsub) (fun g hg ↦ h.live_lt g (hsub.subset hg))
    h.rows_lt h.track h.body h.sync (fun _ hsw ↦ .inl hsw)
    (fun sw hsw ↦ ⟨.inl hsw, (h.startup sw hsw).2⟩) (fun _ hy ↦ .inl hy) h.beat

/-! ## Enqueueing -/

/-- A job is enqueued: its id is taken from the uploads, or it is new. -/
theorem Inv.enqueued (h : Inv s) {j : JobId} {k : Kind} {p : Payload} {n : Nat}
    {l : List FileId} (hown : k = .index → p.id = some j) (hn : s.nextId ≤ n)
    (hnd : (l ++ (s.jobs.held ++ [j])).Nodup) (hl : l.Sublist s.uploads)
    (hj : j ∈ s.uploads ∧ k = .index ∨ j = s.nextId ∧ j < n) :
    Inv { s with
      jobs := { s.jobs with redis := s.jobs.redis.enqueue j k p }
      nextId := n
      uploads := l } := by
  have hstep : Jobs.step s.jobs (.enqueue j k p) =
      some { s.jobs with redis := s.jobs.redis.enqueue j k p } := rfl
  have hheld : ∀ g, g ∈ Jobs.State.held { s.jobs with redis := s.jobs.redis.enqueue j k p } ↔
      g ∈ s.jobs.held ∨ g = j := by
    intro g
    simp [Jobs.State.held, Redis.enqueue, or_assoc]
  have hlive : ∀ g ∈ l ++ Jobs.State.held { s.jobs with redis := s.jobs.redis.enqueue j k p },
      g ∈ s.live ∨ (g = j ∧ s.nextId = j) := by
    intro g hg
    rcases List.mem_append.mp hg with hg | hg
    · exact .inl (List.mem_append_left _ (hl.subset hg))
    rcases (hheld g).mp hg with hg | rfl
    · exact .inl (List.mem_append_right _ hg)
    · rcases hj with ⟨hj, -⟩ | ⟨hj, -⟩
      · exact .inl (List.mem_append_left _ hj)
      · exact .inr ⟨rfl, hj.symm⟩
  refine h.next ⟨hn, ?_, fun _ _ hr ↦ hr, fun _ _ _ hr ↦ .inl hr⟩
    (h.jobs.step rfl ?_ hstep) ?_ ?_ (fun f hf ↦ Nat.lt_of_lt_of_le (h.rows_lt f hf) hn) ?_ h.body
    h.sync (fun _ hsw ↦ .inl hsw) (fun sw hsw ↦ ⟨.inl hsw, (h.startup sw hsw).2⟩)
    (fun _ hy ↦ .inl hy) h.beat
  · intro g hg
    rcases hlive g hg with hg | ⟨rfl, hg⟩
    · exact .inl hg
    · exact .inr (Nat.le_of_eq hg)
  · intro i q hq
    cases hq
    exact hown rfl
  · show (l ++ (s.jobs.pc.hand.toList ++ (s.jobs.redis.queue ++ [j]))).Nodup
    rwa [← List.append_assoc s.jobs.pc.hand.toList]
  · intro g hg
    rcases hlive g hg with hg | ⟨rfl, hg⟩
    · exact Nat.lt_of_lt_of_le (h.live_lt g hg) hn
    · rcases hj with ⟨hj, -⟩ | ⟨-, hj⟩
      · exact Nat.lt_of_lt_of_le (h.live_lt g (List.mem_append_left _ hj)) hn
      · exact hj
  · intro g hg
    by_cases hgj : g = j
    · subst hgj
      rcases hj with ⟨-, rfl⟩ | ⟨hj, -⟩
      · refine .enqueue ?_ p
        intro hm
        have hdis := (List.nodup_append.mp (List.nodup_append.mp hnd).2.1).2.2
        exact hdis g hm g (List.mem_singleton_self g) rfl
      · have hlt : g < s.nextId := h.watched_lt hg
        rw [hj] at hlt
        exact absurd hlt (Nat.lt_irrefl _)
    · exact (h.track g hg).step h.jobs.named h.jobs.timed h.jobs.inStep
        (List.nodup_append.mp h.nodup).2.1 (.enqueue j k p) (by rintro k p ⟨⟩; exact hgj rfl)
        (by rintro raw error ⟨⟩) (by rintro ⟨⟩)

/-! ## The worker -/

/-- The worker's own steps. -/
def ofWorker : Jobs.Act → Bool
  | .enqueue _ _ _ | .sweepGet _ | .sweepSet _ _ _ => false
  | _ => true

theorem clean_calm {a : Jobs.Act} (h : clean s a = true) :
    a.calm = true ∧ ofWorker a = true := by
  cases a with
  | expire | start | warm | wake | closed | sigterm | crash => exact ⟨rfl, rfl⟩
  | enqueue | sweepGet | sweepSet | stray => cases h
  | beat r | pop r | fetch r | fail r | requeue r =>
      cases r with
      | ok => exact ⟨rfl, rfl⟩
      | error => cases h
  | popTimeout applied =>
      cases applied with
      | false => exact ⟨rfl, rfl⟩
      | true => cases h
  | task e =>
      cases e with
      | reply r =>
          cases r with
          | ok => exact ⟨rfl, rfl⟩
          | error => cases h
      | start | bodyReturn | bodyRaise | afterReturn | cancel => exact ⟨rfl, rfl⟩

section Worker

variable {j j' : Jobs.State} {a : Jobs.Act}

theorem sweeps_of_calm (h : Calm j a j') (ha : ofWorker a = true) : j'.sweeps = j.sweeps := by
  cases h with
  | sweepGet | sweepSet | enqueue => cases ha
  | jobBeat =>
      simp only [Jobs.State.afterBeat]
      split <;> rfl
  | sigterm =>
      simp only [Jobs.State.requestShutdown]
      split <;> rfl
  | expire | start | startBeat | warm | readyBeat | loopBeat | pop | popEmpty | fetchNone | fetch
  | wakeUp | wake | failGet | failSet | requeueGet | requeueSet | requeuePush | die | task => rfl

/-- The worker enters its loop with a heartbeat. -/
theorem inLoop_of_calm (h : Calm j a j') (hl : inLoop j'.pc = true) :
    inLoop j.pc = true ∨ a = .beat .ok := by
  cases h with
  | enqueue | expire | sweepGet | sweepSet => exact .inl hl
  | start | warm | die | requeuePush => cases hl
  | startBeat | readyBeat | loopBeat | jobBeat => exact .inr rfl
  | pop hpc | popEmpty hpc | fetchNone hpc | fetch hpc | wakeUp hpc | wake hpc | failGet hpc
  | failSet hpc | requeueGet hpc | requeueSet hpc | task hpc =>
      rw [hpc]
      exact .inl rfl
  | sigterm =>
      simp only [Jobs.State.requestShutdown] at hl
      split at hl
      · next hpc =>
          rw [hpc]
          exact .inl rfl
      · exact .inl hl

/-- The first heartbeat comes after the startup sweep. -/
theorem startBeat_of_calm (h : Calm j a j') (hpc : j.pc = .startBeat) (ha : a ≠ .beat .ok) :
    j'.pc = .startBeat ∨ j'.pc = .down := by
  cases h with
  | enqueue | expire | sweepGet | sweepSet => exact .inl hpc
  | die => exact .inr rfl
  | startBeat | readyBeat | loopBeat | jobBeat => exact absurd rfl ha
  | sigterm => simp [Jobs.State.requestShutdown, hpc]
  | start h | warm h | pop h | popEmpty h | fetchNone h | fetch h | wakeUp h | wake h | failGet h
  | failSet h | requeueGet h | requeueSet h | requeuePush h | task h => cases hpc.symm.trans h

@[simp] theorem bodyId_loopTop (j : Jobs.State) : bodyId j.loopTop.pc = none := by
  rw [Jobs.State.loopTop]
  split <;> rfl

theorem bodyId_of_ne {t : Task} {p : Jobs.JobPc} (h : t.pc ≠ .body) :
    bodyId (.job t p) = none := if_neg fun hx ↦ h hx.1

/-- The loop leaves a body only when the process dies; what starts and ends it are events
of the task. -/
theorem bodyId_of_calm (hi : Jobs.InStep j) (h : Calm j a j') (ha : ∀ e, a ≠ .task e) :
    j'.pc = .down ∨ bodyId j'.pc = bodyId j.pc := by
  have hdone : ∀ {t : Task} {p : Jobs.JobPc}, t.done = true → bodyId (.job t p) = none := by
    intro t p hd
    apply bodyId_of_ne
    intro hb
    rw [Task.done, hb] at hd
    cases hd
  cases h with
  | task => exact absurd rfl (ha _)
  | die => exact .inl rfl
  | enqueue | expire | sweepGet | sweepSet => exact .inr rfl
  | start hpc | startBeat hpc | warm hpc | loopBeat hpc | pop hpc =>
      rw [hpc]
      exact .inr rfl
  | readyBeat hpc | popEmpty hpc | fetchNone hpc | wakeUp hpc =>
      rw [hpc, bodyId_loopTop]
      exact .inr rfl
  | fetch hpc =>
      rw [hpc]
      exact .inr (bodyId_of_ne (by rintro ⟨⟩))
  | jobBeat hpc =>
      rw [hpc]
      simp only [Jobs.State.afterBeat]
      split
      · next ht =>
          rw [bodyId_loopTop, bodyId_of_ne (by rw [ht]; rintro ⟨⟩)]
          exact .inr rfl
      all_goals exact .inr rfl
  | wake hpc | failGet hpc | requeueGet hpc | requeueSet hpc =>
      rw [hpc]
      exact .inr rfl
  | failSet hpc =>
      rw [hpc, hdone (Jobs.Task.done_of_raised (hi.fits _ _ hpc))]
      exact .inr (bodyId_loopTop _)
  | requeuePush hpc =>
      rw [hpc, hdone (hi.fits _ _ hpc)]
      exact .inr rfl
  | sigterm =>
      simp only [Jobs.State.requestShutdown]
      split
      · next hpc =>
          rw [hpc]
          exact .inr rfl
      · exact .inr rfl

/-- An event of the task in flight. -/
theorem task_of_step {e : Jobs.TaskEv} (he : e.calm = true)
    (hn : Jobs.step j (.task e) = some j') :
    ∃ t p r pc, j.pc = .job t p ∧ Jobs.TaskCalm j.redis t e r pc ∧
      j'.pc = .job { t with pc := pc } p := by
  simp only [Jobs.step] at hn
  split at hn
  · next t p hpc =>
      obtain ⟨⟨r, t'⟩, hx, rfl⟩ := Option.map_eq_some_iff.mp hn
      obtain ⟨pc, hc, rfl⟩ := Jobs.TaskCalm.of_step he hx
      exact ⟨t, p, r, pc, hpc, hc, rfl⟩
  · cases hn

end Worker

/-- A step of the worker, with what it does to the row of its job. -/
theorem Inv.worker (h : Inv s) {a : Jobs.Act} (ha : a.calm = true) (hw : ofWorker a = true)
    (hn : Jobs.step s.jobs a = some s'.jobs) (hid : s'.nextId = s.nextId)
    (hups : s'.uploads = s.uploads) (hsw : s'.sweeps = s.sweeps)
    (hrow : ∀ f, f ∉ s.live → s'.stores.files f = s.stores.files f)
    (hnone : ∀ f, s.stores.files f = none → s'.stores.files f = none)
    (hwatch : ∀ f, s'.Watched f → s.Watched f)
    (hret : a = .task .bodyReturn → ∀ f, s'.Watched f → s.jobs.pc.hand ≠ some f)
    (hbody : s'.body.map Prod.fst = bodyId s'.jobs.pc)
    (hsync : ∀ f b, s'.body = some (f, b) → b.InSync s'.stores f)
    (hup : ∀ sw, s'.startup = some sw →
      (s.startup = some sw ∨ sw = .select) ∧ s'.jobs.pc = .startBeat)
    (hbeat : s'.heartbeat = (s.heartbeat || a = .beat .ok)) : Inv s' := by
  have hc := Calm.of_step ha hn
  have hne : ∀ j k p, a ≠ .enqueue j k p := by
    rintro j k p rfl
    cases hw
  have hsub : s'.live.Sublist s.live := by
    rw [State.live, hups]
    exact (Jobs.held_sublist h.jobs.named hc hne).append_left _
  refine h.next ⟨Nat.le_of_eq hid.symm, fun f hf ↦ .inl (hsub.subset hf), fun f _ ↦ hnone f,
      fun f hf r hr ↦ .inl ((hrow f hf).symm.trans hr)⟩
    (h.jobs.step ha (fun j p he ↦ absurd he (hne j _ p)) hn) (h.nodup.sublist hsub)
    (fun f hf ↦ hid ▸ h.live_lt f (hsub.subset hf))
    (fun f hf ↦ hid ▸ h.rows_lt f fun hr ↦ hf (hnone f hr)) (fun f hf ↦ ?_) hbody hsync
    (fun sw hm ↦ .inl (hsw ▸ hm)) (fun sw hs ↦ ?_) (fun y hy ↦ .inl ?_) (fun hl ↦ ?_)
  · refine (h.track f (hwatch f hf)).step h.jobs.named h.jobs.timed h.jobs.inStep
      (List.nodup_append.mp h.nodup).2.1 hc (hne f) ?_ fun he ↦ hret he f hf
    rintro raw error rfl
    cases hw
  · obtain ⟨hold | rfl, hpc⟩ := hup sw hs
    · exact ⟨.inl hold, hpc⟩
    · exact ⟨.inr trivial, hpc⟩
  · rwa [sweeps_of_calm hc hw] at hy
  · rw [hbeat, Bool.or_eq_true, decide_eq_true_eq]
    exact (inLoop_of_calm hc hl).imp_left h.beat

/-- The body starts with a look at the row. -/
theorem bodyOf_inactive {pc : Jobs.Pc} {b : IndexJob} (h : State.bodyOf pc = some (f, b)) :
    b = .attempt false .lookup := by
  simp only [State.bodyOf] at h
  split at h
  · split at h
    · obtain ⟨g, -, heq⟩ := Option.map_eq_some_iff.mp h
      cases heq
      rfl
    · cases h
  · cases h

theorem bodyOf_eq_bodyId {j : Jobs.State} (h : AllTargeted j) :
    (State.bodyOf j.pc).map Prod.fst = bodyId j.pc := by
  cases hpc : j.pc with
  | job t p =>
      by_cases hb : t.pc = .body ∧ t.job.kind = some .index
      · simp only [State.bodyOf, bodyId, if_pos hb, h.task t p hpc hb.2, Option.map_some]
      · simp only [State.bodyOf, bodyId, if_neg hb, Option.map_none]
  | down | startBeat | warmUp | readyBeat | loopBeat | popping | fetching | sleeping | closing => rfl

/-- What `moved` does besides the worker's own fields. -/
theorem moved_frame (s : State) (j : Jobs.State) (a : Jobs.Act) :
    (s.moved j a).jobs = j ∧ (s.moved j a).stores = s.stores ∧ (s.moved j a).nextId = s.nextId ∧
      (s.moved j a).uploads = s.uploads ∧ (s.moved j a).sweeps = s.sweeps ∧
      (s.moved j a).heartbeat = (s.heartbeat || a = .beat .ok) := by
  rw [State.moved]
  split
  · exact ⟨rfl, rfl, rfl, rfl, rfl, rfl⟩
  · split <;> exact ⟨rfl, rfl, rfl, rfl, rfl, rfl⟩

theorem moved_body (s : State) {j : Jobs.State} {a : Jobs.Act} (ha : a ≠ .task (.reply .ok)) :
    (s.moved j a).body = if j.pc = .down then none else s.body := by
  rw [State.moved, if_neg ha]
  split <;> rfl

theorem moved_body_reply (s : State) {j : Jobs.State} (h : j.pc ≠ .down) :
    (s.moved j (.task (.reply .ok))).body = State.bodyOf j.pc := by
  rw [State.moved, if_neg h, if_pos rfl]

theorem moved_startup {s : State} {j : Jobs.State} {a : Jobs.Act} {sw : Sweep}
    (h : (s.moved j a).startup = some sw) :
    j.pc ≠ .down ∧ (s.startup = some sw ∨ a = .start ∧ sw = .select) := by
  rw [State.moved] at h
  split at h
  · cases h
  next hpc =>
  have h : (if a = .start then some .select else s.startup) = some sw := by
    split at h <;> exact h
  refine ⟨hpc, ?_⟩
  split at h
  · next ha =>
      cases h
      exact .inr ⟨ha, rfl⟩
  · exact .inl h

/-- The startup sweep after a step of the worker: it is there until the first heartbeat. -/
theorem Inv.startup_moved (h : Inv s) {j : Jobs.State} {a : Jobs.Act} (hcl : clean s a = true)
    (hn : Jobs.step s.jobs a = some j) {s₀ : State} (hs₀ : s₀.startup = s.startup) {sw : Sweep}
    (hsw : (s₀.moved j a).startup = some sw) :
    (s.startup = some sw ∨ sw = .select) ∧ j.pc = .startBeat := by
  obtain ⟨hdown, hold | ⟨rfl, rfl⟩⟩ := moved_startup hsw
  · rw [hs₀] at hold
    have hpc := (h.startup sw hold).2
    refine ⟨.inl hold, (startBeat_of_calm (Calm.of_step (clean_calm hcl).1 hn) hpc ?_).resolve_right
      hdown⟩
    -- the sweep is still under way, so the heartbeat after it is not
    rintro rfl
    simp [clean, hpc, hold] at hcl
  · refine ⟨.inr rfl, ?_⟩
    simp only [Jobs.step, Option.ite_none_right_eq_some, Option.some.injEq] at hn
    rw [← hn.2]

/-- A step of the worker that leaves the rows alone and is no event of its task. -/
theorem Inv.loop (h : Inv s) {a : Jobs.Act} {j : Jobs.State} (hcl : clean s a = true)
    (ha : ∀ e, a ≠ .task e) (hn : Jobs.step s.jobs a = some j) : Inv (s.moved j a) := by
  obtain ⟨hcalm, hw⟩ := clean_calm hcl
  obtain ⟨hj, hst, hid, hups, hsw, hbeat⟩ := moved_frame s j a
  have hbody := moved_body s (j := j) (ha (.reply .ok))
  have hsame : ∀ f b, (s.moved j a).body = some (f, b) → s.body = some (f, b) := by
    intro f b hb
    rw [hbody] at hb
    split at hb
    · cases hb
    · exact hb
  have hwatch : ∀ f, (s.moved j a).Watched f → s.Watched f := by
    rintro f (ht | ⟨b, hb, hact⟩)
    · exact .inl (hst ▸ ht)
    · exact .inr ⟨b, hsame f b hb, hact⟩
  refine h.worker hcalm hw (hj.symm ▸ hn) hid hups hsw (fun f _ ↦ by rw [hst])
    (fun f hf ↦ by rw [hst]; exact hf) hwatch (fun he ↦ absurd he (ha _)) ?_
    (fun f b hb ↦ hst ▸ h.sync f b (hsame f b hb)) ?_ hbeat
  · rw [hbody, hj]
    rcases bodyId_of_calm h.jobs.inStep (Calm.of_step hcalm hn) ha with hd | he
    · rw [if_pos hd, hd]
      rfl
    · split
      · next hd =>
          rw [hd]
          rfl
      · exact h.body.trans he.symm
  · intro sw hs
    rw [hj]
    exact h.startup_moved hcl hn rfl hs

/-- An event of the task that is no event of an index job's body. -/
theorem Inv.task (h : Inv s) {e : Jobs.TaskEv} {j : Jobs.State} (hcl : clean s (.task e) = true)
    (he : ∀ applied, e ≠ .cancel applied) (hn : Jobs.step s.jobs (.task e) = some j) :
    Inv (s.moved j (.task e)) := by
  obtain ⟨hcalm, hw⟩ := clean_calm hcl
  obtain ⟨hj, hst, hid, hups, hsw, hbeat⟩ := moved_frame s j (.task e)
  obtain ⟨t, p, r, pc, hpc, hc, hpc'⟩ := task_of_step hcalm hn
  have hup : j.pc ≠ .down := by
    rw [hpc']
    rintro ⟨⟩
  -- a body starts with the reply to the second command, and is not yet active
  have hbody :
      (s.moved j (.task e)).body = if e = .reply .ok then State.bodyOf j.pc else s.body := by
    split
    · next heq =>
        subst heq
        exact moved_body_reply s hup
    · next hne =>
        rw [moved_body s fun heq ↦ hne (Jobs.Act.task.inj heq), if_neg hup]
  have hact : ∀ f b, (s.moved j (.task e)).body = some (f, b) →
      s.body = some (f, b) ∨ b = .attempt false .lookup := by
    intro f b hb
    rw [hbody] at hb
    split at hb
    · exact .inr (bodyOf_inactive hb)
    · exact .inl hb
  have hwatch : ∀ f, (s.moved j (.task e)).Watched f → s.Watched f := by
    rintro f (ht | ⟨b, hb, ha⟩)
    · exact .inl (hst ▸ ht)
    · rcases hact f b hb with hb | rfl
      · exact .inr ⟨b, hb, ha⟩
      · cases ha
  refine h.worker hcalm hw (hj.symm ▸ hn) hid hups hsw (fun f _ ↦ by rw [hst])
    (fun f hf ↦ by rw [hst]; exact hf) hwatch ?_ ?_ ?_
    (fun sw hs ↦ hj.symm ▸ h.startup_moved hcl hn rfl hs) hbeat
  · intro heq f hf hh
    -- a body that returns here is that of another kind of job
    cases heq
    have hnone : s.body = none := by simpa [clean] using hcl
    have hid := h.body
    have htr := (h.track f (hwatch f hf)).pc
    rw [hpc] at htr hid hh
    rw [hnone] at hid
    cases hc with
    | bodyReturn hb => simp [bodyId, hb, (htr (Option.some.inj hh)).1] at hid
  · rw [hbody, hj]
    split
    · exact bodyOf_eq_bodyId (h.jobs.step hcalm (fun i q heq ↦ by cases heq) hn).targeted
    next hne =>
    have hold := h.body
    rw [hpc] at hold
    rw [hpc']
    cases hc with
    | start ht | unhandled ht | afterReturn ht =>
        rw [hold, bodyId_of_ne (by rw [ht]; rintro ⟨⟩), bodyId_of_ne (by rintro ⟨⟩)]
    | runGet | runSet | noTarget | doneGet | doneSet => exact absurd rfl hne
    | bodyReturn | bodyRaise =>
        have hnone : s.body = none := by simpa [clean] using hcl
        rw [hnone, bodyId_of_ne (by rintro ⟨⟩)]
        rfl
    | cancel => exact absurd rfl (he _)
  · intro f b hb
    rw [hst]
    rcases hact f b hb with hb | rfl
    · exact h.sync f b hb
    · trivial

/-! ## The body of an index job -/

section Index

variable {b b' : IndexJob} {st : Stores} {e : JobEv}

/-- What an event of the body leaves to be done was there before. -/
theorem Inv.watched_of_index (hb : s.body = some (f, b))
    (hn : b.step c f s.stores false e = some (st, b'))
    (hg : st.Transient g ∨ g = f ∧ b'.active = true) : s.Watched g := by
  by_cases hgf : g = f
  · subst hgf
    cases hact : b.active with
    | true => exact .inr ⟨b, hb, hact⟩
    | false =>
        obtain ⟨rfl, ht⟩ := IndexJob.step_of_inactive hact hn
        rcases hg with hg | ⟨-, hg⟩
        · exact .inl hg
        · exact .inl (ht hg)
  · obtain ⟨r, hr, ht⟩ := hg.resolve_right fun hx ↦ hgf hx.1
    exact .inl ⟨r, ((IndexJob.step_writesOnly hn).ne g hgf).symm.trans hr, ht⟩

/-- The rows of other files are left alone, and no row is made. -/
theorem Inv.rows_of_index (h : Inv s) (hb : s.body = some (f, b))
    (hn : b.step c f s.stores false e = some (st, b')) :
    (∀ g, g ∉ s.live → st.files g = s.stores.files g) ∧
      ∀ g, s.stores.files g = none → st.files g = none := by
  have hw := IndexJob.step_writesOnly hn
  refine ⟨fun g hg ↦ hw.ne g ?_, ?_⟩
  · rintro rfl
    exact hg (h.body_live hb)
  · intro g hg
    by_cases hgf : g = f
    · subst hgf
      exact hw.none hg
    · exact (hw.ne g hgf).trans hg

/-- The body is over, and with it the task's wait for it. -/
theorem Inv.bodyEnds (h : Inv s) (hb : s.body = some (f, b))
    (hn : b.step c f s.stores false e = some (st, b')) {a : Jobs.TaskEv} {j : Jobs.State}
    (ha : a = .bodyReturn ∧ b' = .returned ∨ ∃ message, a = .bodyRaise message)
    (hj : Jobs.step s.jobs (.task a) = some j) (l : List Thread) :
    Inv { s with jobs := j, stores := st, body := none, threads := l } := by
  have hcalm : a.calm = true := by
    rcases ha with ⟨rfl, -⟩ | ⟨message, rfl⟩ <;> rfl
  obtain ⟨t, p, r, pc, hpc, hc, hpc'⟩ := task_of_step hcalm hj
  obtain ⟨hrow, hnone⟩ := h.rows_of_index hb hn
  have htr : ∀ g, State.Watched { s with jobs := j, stores := st, body := none, threads := l } g →
      st.Transient g := by
    rintro g (ht | ⟨b, ⟨⟩, -⟩)
    exact ht
  refine h.worker (a := .task a) hcalm rfl hj rfl rfl rfl hrow hnone
    (fun g hg ↦ watched_of_index hb hn (.inl (htr g hg))) ?_ ?_
    (fun _ _ hx ↦ by cases hx) ?_ (by simp)
  · intro heq g hg hh
    cases heq
    rcases ha with ⟨-, rfl⟩ | ⟨_, hx⟩
    · cases (h.body_hand hb).symm.trans hh
      exact IndexJob.terminal_of_returned (h.sync _ b hb) hn (htr _ hg)
    · cases hx
  · show none = bodyId j.pc
    rw [hpc']
    rcases ha with ⟨rfl, -⟩ | ⟨message, rfl⟩
    · cases hc
      rfl
    · cases hc
      rfl
  · intro sw hs
    cases (h.startup sw hs).2.symm.trans hpc

/-- The body goes on. -/
theorem Inv.bodyMoves (h : Inv s) (hb : s.body = some (f, b))
    (hn : b.step c f s.stores false e = some (st, b')) (l : List Thread) :
    Inv { s with stores := st, body := some (f, b'), threads := l } := by
  obtain ⟨hrow, hnone⟩ := h.rows_of_index hb hn
  refine h.next ⟨Nat.le_refl _, fun _ hl ↦ .inl hl, fun g _ ↦ hnone g,
      fun g hg r hr ↦ .inl ((hrow g hg).symm.trans hr)⟩ h.jobs h.nodup h.live_lt
    (fun g hg ↦ h.rows_lt g fun hx ↦ hg (hnone g hx)) (fun g hg ↦ h.track g ?_) ?_ (fun g d hd ↦ ?_)
    (fun _ hsw ↦ .inl hsw) (fun sw hsw ↦ ⟨.inl hsw, (h.startup sw hsw).2⟩) (fun _ hy ↦ .inl hy)
    h.beat
  · apply watched_of_index hb hn
    rcases hg with hg | ⟨d, hd, hact⟩
    · exact .inl hg
    · cases hd
      exact .inr ⟨rfl, hact⟩
  · have hid := h.body
    rw [hb] at hid
    exact hid
  · cases hd
    exact IndexJob.step_inSync hn

theorem Inv.index (h : Inv s) (hb : s.body = some (f, b)) (hn : s.indexStep c f b e = some s') :
    Inv s' := by
  obtain ⟨⟨st, b'⟩, hx, hn⟩ := Option.bind_eq_some_iff.mp hn
  cases b' with
  | returned =>
      obtain ⟨j, hj, rfl⟩ := Option.map_eq_some_iff.mp hn
      exact h.bodyEnds hb hx (.inl ⟨rfl, rfl⟩) hj _
  | raised message =>
      obtain ⟨j, hj, rfl⟩ := Option.map_eq_some_iff.mp hn
      exact h.bodyEnds hb hx (.inr ⟨message, rfl⟩) hj _
  | cancelled => cases hn
  | attempt | failSelect | failCommit | failGet | failDelete =>
      cases hn
      exact h.bodyMoves hb hx _

end Index

/-! ## Cancellation -/

theorem cancelBody_frame (s : State) (applied : Bool) :
    (s.cancelBody c applied).nextId = s.nextId ∧ (s.cancelBody c applied).uploads = s.uploads ∧
      (s.cancelBody c applied).sweeps = s.sweeps ∧ (s.cancelBody c applied).startup = s.startup ∧
      (s.cancelBody c applied).heartbeat = s.heartbeat ∧ (s.cancelBody c applied).body = none := by
  rw [State.cancelBody]
  split
  · split <;> exact ⟨rfl, rfl, rfl, rfl, rfl, rfl⟩
  · next hb => exact ⟨rfl, rfl, rfl, rfl, rfl, hb⟩

/-- A cancelled body leaves the rows as an event of it does. -/
theorem Inv.rows_of_cancel (h : Inv s) (applied : Bool) :
    (∀ g, g ∉ s.live → (s.cancelBody c applied).stores.files g = s.stores.files g) ∧
      (∀ g, s.stores.files g = none → (s.cancelBody c applied).stores.files g = none) ∧
      ∀ g, (s.cancelBody c applied).stores.Transient g → s.Watched g := by
  rw [State.cancelBody]
  split
  · next f b hb =>
      split
      · next x hx =>
          obtain ⟨hrow, hnone⟩ := h.rows_of_index hb hx
          exact ⟨hrow, hnone, fun g hg ↦ watched_of_index hb hx (.inl hg)⟩
      · exact ⟨fun _ _ ↦ rfl, fun _ hg ↦ hg, fun _ hg ↦ .inl hg⟩
  · exact ⟨fun _ _ ↦ rfl, fun _ hg ↦ hg, fun _ hg ↦ .inl hg⟩

theorem Inv.cancel (h : Inv s) {applied : Bool} {j : Jobs.State}
    (hn : Jobs.step s.jobs (.task (.cancel applied)) = some j) :
    Inv ((s.cancelBody c applied).moved j (.task (.cancel applied))) := by
  obtain ⟨hj, hst, hid, hups, hsw, hbeat⟩ :=
    moved_frame (s.cancelBody c applied) j (.task (.cancel applied))
  obtain ⟨hid', hups', hsw', hstart, hbeat', hnone⟩ := cancelBody_frame (c := c) s applied
  obtain ⟨hrow, hrow', htr⟩ := h.rows_of_cancel (c := c) applied
  have hbody : ((s.cancelBody c applied).moved j (.task (.cancel applied))).body = none := by
    rw [moved_body _ (by rintro ⟨⟩), hnone, ite_self]
  refine h.worker rfl rfl (hj.symm ▸ hn) (hid.trans hid') (hups.trans hups') (hsw.trans hsw')
    (fun g hg ↦ by rw [hst]; exact hrow g hg) (fun g hg ↦ by rw [hst]; exact hrow' g hg)
    ?_ (by rintro ⟨⟩) ?_ ?_
    (fun sw hs ↦ hj.symm ▸ h.startup_moved rfl hn hstart hs) (by rw [hbeat, hbeat'])
  · intro g hg
    rcases hg with hg | ⟨b, hb, -⟩
    · exact htr g (hst ▸ hg)
    · rw [hbody] at hb
      cases hb
  · rw [hbody, hj]
    obtain ⟨t, p, r, pc, -, hc, hpc'⟩ := task_of_step rfl hn
    cases hc
    rw [hpc', bodyId_of_ne (by rintro ⟨⟩)]
    rfl
  · intro f b hb
    rw [hbody] at hb
    cases hb

/-- A step of the worker in which Redis answers. -/
theorem Inv.jobsStep (h : Inv s) {a : Jobs.Act} (hn : Maintenance.step c s (.jobs a) = some s') :
    Inv s' := by
  simp only [Maintenance.step, Option.ite_none_right_eq_some] at hn
  obtain ⟨hcl, hn⟩ := hn
  obtain ⟨j, hj, rfl⟩ := Option.map_eq_some_iff.mp hn
  cases a with
  | task e =>
      cases e with
      | cancel applied => exact h.cancel hj
      | start | reply | bodyReturn | bodyRaise | afterReturn =>
          exact h.task hcl (by rintro applied ⟨⟩) hj
  | enqueue | expire | sweepGet | sweepSet | start | beat | warm | pop | popTimeout | fetch | wake
  | fail | requeue | closed | sigterm | crash | stray => exact h.loop hcl (by rintro e ⟨⟩) hj

/-! ## Sweeps -/

section Sweeps

variable {todo : List (FileId × FileRow)} {swept : List (FileId × Tracked FileRow)} {r : FileRow}
  {sw : Sweep}

theorem SweepOk.proceed (ht : TodoOk s todo) (hs : SweptOk s swept)
    (h : Sweep.proceed todo swept = some sw) : SweepOk s sw := by
  simp only [Sweep.proceed] at h
  split at h <;> cases h
  · exact ⟨ht, hs⟩
  · exact hs

theorem SweepOk.fail (ht : TodoOk s ((f, r) :: todo)) (hs : SweptOk s swept) (hf : s.Condemned f)
    (h : Sweep.fail f r todo swept = some sw) : SweepOk s sw := by
  refine SweepOk.proceed (fun y hy ↦ ht y (List.mem_cons_of_mem _ hy)) ?_ h
  intro y hy
  rcases List.mem_append.mp hy with hy | hy
  · exact hs y hy
  · rw [List.mem_singleton.mp hy]
    exact ⟨hf, (ht (f, r) List.mem_cons_self).2, rfl⟩

theorem SweepOk.reportNext {l : List FileId} (hl : ∀ g ∈ l, s.Settled g)
    (h : Sweep.reportNext l = some sw) : SweepOk s sw := by
  cases l with
  | nil => cases h
  | cons g l =>
      cases h
      exact hl

theorem todoOk_stuck (h : Inv s) : TodoOk s s.stuck := by
  intro y hy
  obtain ⟨f, -, hf⟩ := List.mem_filterMap.mp hy
  obtain ⟨r, hr, hy⟩ := Option.bind_eq_some_iff.mp hf
  split at hy <;> cases hy
  next ht => exact ⟨h.rows_lt f (by simp [hr]), ht⟩

/-- The rows of a sweep's session: read as transient, assigned `failed`. -/
def Fails (swept : List (FileId × Tracked FileRow)) : Prop :=
  ∀ y ∈ swept, y.2.saved.status.transient = true ∧ y.2.now.status = .failed

/-- The flush of one row, which must be there. -/
theorem writeFile_failed {st st' : Stores} {o : Tracked FileRow}
    (hs : o.saved.status.transient = true) (hnow : o.now.status = .failed) (h : st.writeFile f o = some st') :
    st.files f ≠ none ∧ (∃ r, st'.files f = some r ∧ r.status = .failed) ∧
      ∀ g, g ≠ f → st'.files g = st.files g := by
  have hne : o.now.status ≠ o.saved.status := by
    intro heq
    rw [← heq, hnow] at hs
    cases hs
  rw [Stores.writeFile, if_neg fun heq ↦ hne (congrArg _ heq)] at h
  obtain ⟨cur, hcur, rfl⟩ := Option.map_eq_some_iff.mp h
  refine ⟨by simp [hcur], ⟨cur.flush o, Function.update_self .., ?_⟩, fun g hg ↦
    Function.update_of_ne hg _ _⟩
  exact (flushField_of_ne hne _).trans hnow

/-- The commit of a sweep fails the rows it has assigned, which are all there, and leaves
the others alone. -/
theorem writeFiles_failed {st st' : Stores} (hs : Fails swept)
    (h : writeFiles st swept = some st') :
    (∀ g ∈ swept.map Prod.fst, st.files g ≠ none ∧ ∃ r, st'.files g = some r ∧ r.status = .failed) ∧
      ∀ g, g ∉ swept.map Prod.fst → st'.files g = st.files g := by
  induction swept generalizing st with
  | nil =>
      cases h
      exact ⟨by rintro g ⟨⟩, fun _ _ ↦ rfl⟩
  | cons y l ih =>
      obtain ⟨f, o⟩ := y
      obtain ⟨st₁, hw, h⟩ := Option.bind_eq_some_iff.mp h
      obtain ⟨hin, hout⟩ := ih (fun y hy ↦ hs y (List.mem_cons_of_mem _ hy)) h
      have ho := hs (f, o) List.mem_cons_self
      obtain ⟨hrow, hfail, hne⟩ := writeFile_failed ho.1 ho.2 hw
      constructor
      · intro g hg
        by_cases hgf : g = f
        · subst hgf
          refine ⟨hrow, ?_⟩
          by_cases hgl : g ∈ l.map Prod.fst
          · exact (hin g hgl).2
          · rw [hout g hgl]
            exact hfail
        · have hgl := (List.mem_cons.mp hg).resolve_left hgf
          rw [← hne g hgf]
          exact hin g hgl
      · intro g hg
        obtain ⟨hgf, hgl⟩ := not_or.mp fun hx ↦ hg (List.mem_cons.mpr hx)
        rw [hout g hgl, hne g hgf]

theorem SweptOk.fails (h : SweptOk s swept) : Fails swept := fun y hy ↦ (h y hy).2

/-- A row the commit of a sweep writes is there, and its file is an orphan. -/
theorem SweptOk.orphan {st : Stores} (h : SweptOk s swept)
    (hw : writeFiles s.stores swept = some st) (hf : f ∈ swept.map Prod.fst) :
    ∃ r, s.stores.files f = some r ∧ r.status ≠ .indexed ∧ f ∉ s.live := by
  obtain ⟨r, hr⟩ := Option.ne_none_iff_exists'.mp ((writeFiles_failed h.fails hw).1 f hf).1
  obtain ⟨y, hy, rfl⟩ := List.mem_map.mp hf
  obtain ⟨hlive, hst⟩ := (h y hy).1.2 r hr
  exact ⟨r, hr, hst, hlive⟩

theorem Inv.commit (h : Inv s) (hs : SweptOk s swept) {st : Stores}
    (hw : writeFiles s.stores swept = some st) :
    Inv { s with stores := st } ∧
      ∀ g ∈ swept.map Prod.fst, State.Settled { s with stores := st } g := by
  obtain ⟨hin, hout⟩ := writeFiles_failed hs.fails hw
  have hrow : ∀ g r, st.files g = some r → s.stores.files g = some r ∨ r.status = .failed := by
    intro g r hr
    by_cases hg : g ∈ swept.map Prod.fst
    · obtain ⟨-, r', hr', hst⟩ := hin g hg
      cases hr'.symm.trans hr
      exact .inr hst
    · exact .inl ((hout g hg).symm.trans hr)
  have hnone : ∀ g, s.stores.files g = none → st.files g = none := by
    intro g hn
    by_cases hg : g ∈ swept.map Prod.fst
    · exact absurd hn (hin g hg).1
    · exact (hout g hg).trans hn
  constructor
  · refine h.next ⟨Nat.le_refl _, fun _ hl ↦ .inl hl, fun g _ ↦ hnone g,
        fun g _ r hr ↦ (hrow g r hr).imp_right .inr⟩ h.jobs h.nodup h.live_lt
      (fun g hg ↦ h.rows_lt g fun hx ↦ hg (hnone g hx)) (fun g hg ↦ h.track g ?_) h.body
      (fun g b hb ↦ ?_) (fun _ hsw ↦ .inl hsw) (fun sw hsw ↦ ⟨.inl hsw, (h.startup sw hsw).2⟩)
      (fun _ hy ↦ .inl hy) h.beat
    · rcases hg with ⟨r, hr, ht⟩ | hb
      · refine .inl ⟨r, (hrow g r hr).resolve_right ?_, ht⟩
        intro hst
        rw [hst] at ht
        cases ht
      · exact .inr hb
    · apply (h.sync g b hb).of_row
      intro r hr
      by_cases hg : g ∈ swept.map Prod.fst
      · obtain ⟨-, -, -, hlive⟩ := hs.orphan hw hg
        exact absurd (h.body_live hb) hlive
      · exact (hout g hg).symm.trans hr
  · intro g hg
    obtain ⟨r, hr, -, hlive⟩ := hs.orphan hw hg
    refine ⟨h.rows_lt g (by simp [hr]), hlive, ?_⟩
    rintro ⟨r', hr', ht⟩
    obtain ⟨-, r'', hr'', hst⟩ := hin g hg
    cases hr''.symm.trans hr'
    rw [hst] at ht
    cases ht

theorem Inv.not_watched (h : Inv s) (hf : s.Settled f) : ¬s.Watched f := by
  rintro (ht | ⟨b, hb, -⟩)
  · exact hf.2.2 ht
  · exact hf.2.1 (h.body_live hb)

/-- A command of the sweep's `update_status`, about a file it has failed. -/
theorem Inv.report (h : Inv s) {a : Jobs.Act} {j : Jobs.State}
    (ha : (∃ g, a = .sweepGet g ∧ s.Settled g) ∨ ∃ g raw, a = .sweepSet g raw fileMsg)
    (hn : Jobs.step s.jobs a = some j) : Inv { s with jobs := j } := by
  have hcalm : a.calm = true := by
    rcases ha with ⟨g, rfl, -⟩ | ⟨g, raw, rfl⟩ <;> rfl
  have hne : ∀ i k p, a ≠ .enqueue i k p := by
    rcases ha with ⟨g, rfl, -⟩ | ⟨g, raw, rfl⟩ <;> rintro i k p ⟨⟩
  have hc := Calm.of_step hcalm hn
  have hpc : j.pc = s.jobs.pc ∧ j.redis.queue = s.jobs.redis.queue ∧
      ∀ y ∈ j.sweeps, y ∈ s.jobs.sweeps ∨ a = .sweepGet y.1 := by
    rcases ha with ⟨g, rfl, -⟩ | ⟨g, raw, rfl⟩
    · cases hn
      refine ⟨rfl, rfl, ?_⟩
      intro y hy
      rcases List.mem_cons.mp hy with rfl | hy
      · exact .inr rfl
      · exact .inl hy
    · simp only [Jobs.step, Option.ite_none_right_eq_some, Option.some.injEq] at hn
      obtain ⟨-, rfl⟩ := hn
      exact ⟨rfl, rfl, fun y hy ↦ .inl (List.mem_of_mem_erase hy)⟩
  obtain ⟨hpc, hq, hsw⟩ := hpc
  have hlive : State.live { s with jobs := j } = s.live := by
    rw [State.live, State.live, Jobs.State.held, Jobs.State.held]
    simp only [hpc, hq]
  refine h.next ⟨Nat.le_refl _, fun g hg ↦ .inl (hlive ▸ hg), fun _ _ hr ↦ hr,
      fun _ _ _ hr ↦ .inl hr⟩ (h.jobs.step hcalm (fun i p he ↦ absurd he (hne i _ p)) hn)
    (hlive ▸ h.nodup) (fun g hg ↦ h.live_lt g (hlive ▸ hg)) h.rows_lt ?_
    (hpc ▸ h.body) h.sync (fun _ hm ↦ .inl hm) (fun sw hs ↦ ⟨.inl hs, ?_⟩) ?_ ?_
  · intro g hg
    refine (h.track g hg).step h.jobs.named h.jobs.timed h.jobs.inStep
      (List.nodup_append.mp h.nodup).2.1 hc (hne g) ?_ ?_
    · rintro raw error rfl
      simp only [Jobs.step, Option.ite_none_right_eq_some] at hn
      exact h.not_watched (h.reports _ hn.1) hg
    · rintro rfl
      rcases ha with ⟨g, hx, -⟩ | ⟨g, raw, hx⟩ <;> cases hx
  · exact hpc.trans (h.startup sw hs).2
  · intro y hy
    apply (hsw y hy).imp_right
    intro hy
    rcases ha with ⟨g, rfl, hg⟩ | ⟨g, raw, rfl⟩
    · cases hy
      exact ⟨hg.1, hlive ▸ hg.2.1, hg.2.2⟩
    · cases hy
  · show inLoop j.pc = true → s.heartbeat = true
    rw [hpc]
    exact h.beat

theorem Inv.setSweep (h : Inv s) {w : Option Nat} {o : Option Sweep}
    (hw : w = none → o ≠ none → s.jobs.pc = .startBeat) (ho : ∀ sw, o = some sw → SweepOk s sw) :
    Inv (s.setSweep w o) := by
  cases w with
  | none =>
      refine ⟨h.jobs, h.nodup, h.live_lt, h.rows_lt, h.track, h.body, h.sync, h.sweeps, ?_,
        h.reports, h.beat⟩
      rintro sw rfl
      exact ⟨ho sw rfl, hw rfl (by rintro ⟨⟩)⟩
  | some n =>
      cases o with
      | none =>
          refine ⟨h.jobs, h.nodup, h.live_lt, h.rows_lt, h.track, h.body, h.sync, ?_, h.startup,
            h.reports, h.beat⟩
          exact fun sw hsw ↦ h.sweeps sw (List.eraseIdx_subset hsw)
      | some sw₀ =>
          refine ⟨h.jobs, h.nodup, h.live_lt, h.rows_lt, h.track, h.body, h.sync, ?_, h.startup,
            h.reports, h.beat⟩
          intro sw hsw
          rcases List.mem_or_eq_of_mem_set hsw with hsw | rfl
          · exact h.sweeps sw hsw
          · exact ho sw rfl

/-- A sweep's decision, when the condition is met. -/
theorem Inv.decision (h : Inv s) {w : Option Nat} {st : Option JobStatus}
    (hg : Checked s (.sweep w))
    (hf : s.fails (.sweep w) = some (f, st)) (hlt : f < s.nextId) (hst : st ≠ some .queued)
    (hrun : st = some .running → inLoop s.jobs.pc = false) : s.Condemned f := by
  obtain ⟨hup, hrow, heq⟩ := hg (f, st) hf
  have heq : s.jobs.redis.status f = st := heq
  exact h.condemned hlt hup hrow (heq ▸ hst) (heq ▸ hrun)

/-- The starting worker's sweep runs before the loop. -/
theorem Inv.startup_sweep (h : Inv s) {w : Option Nat} (hat : s.sweepAt w = some (true, sw)) :
    s.jobs.pc = .startBeat := by
  cases w with
  | none =>
      obtain ⟨sw', hsw, -⟩ := Option.map_eq_some_iff.mp hat
      exact (h.startup sw' hsw).2
  | some n =>
      obtain ⟨sw', -, hx⟩ := Option.map_eq_some_iff.mp hat
      cases hx

theorem Inv.sweepAt_ok (h : Inv s) {w : Option Nat} {startup : Bool}
    (hat : s.sweepAt w = some (startup, sw)) : SweepOk s sw := by
  cases w with
  | none =>
      obtain ⟨sw', hsw, hx⟩ := Option.map_eq_some_iff.mp hat
      cases hx
      exact (h.startup sw hsw).1
  | some n =>
      obtain ⟨sw', hsw, hx⟩ := Option.map_eq_some_iff.mp hat
      cases hx
      exact h.sweeps sw (List.mem_of_getElem? hsw)

/-- One step of a sweep within the condition. -/
theorem Inv.sweepStep (h : Inv s) {w : Option Nat} {startup : Bool} {o : Option Sweep}
    (hat : s.sweepAt w = some (startup, sw)) (hg : Checked s (.sweep w))
    (hn : s.sweepStep startup sw = some (s', o)) :
    Inv s' ∧ (∀ sw', o = some sw' → SweepOk s' sw') ∧ s'.jobs.pc = s.jobs.pc := by
  have hok := h.sweepAt_ok hat
  cases sw with
  | select =>
      cases hn
      exact ⟨h, fun sw' ho ↦ .proceed (todoOk_stuck h) (by rintro y ⟨⟩) ho, rfl⟩
  | check f r todo swept =>
      obtain ⟨ht, hs⟩ := hok
      have htl : TodoOk s todo := fun y hy ↦ ht y (List.mem_cons_of_mem _ hy)
      simp only [State.sweepStep] at hn
      split at hn <;> cases hn
      · exact ⟨h, fun sw' ho ↦ .proceed htl hs ho, rfl⟩
      · refine ⟨h, ?_, rfl⟩
        intro sw' ho
        cases ho
        exact ⟨ht, hs⟩
      · next hdead =>
          have hf : s.fails (.sweep w) = some (f, s.jobs.redis.status f) := by
            simp only [State.fails, hat, hdead, if_true]
          refine ⟨h, fun sw' ho ↦ .fail ht hs (h.decision hg hf (ht _ List.mem_cons_self).1 ?_ ?_) ho,
            rfl⟩
          · intro heq
            rw [heq] at hdead
            cases hdead
          · intro heq
            rw [heq] at hdead
            -- only the starting worker takes `running` for dead, and it is not in its loop yet
            cases startup with
            | false => cases hdead
            | true =>
                rw [h.startup_sweep hat]
                rfl
  | alive f r todo swept =>
      obtain ⟨ht, hs⟩ := hok
      simp only [State.sweepStep] at hn
      split at hn <;> cases hn
      · exact ⟨h, fun sw' ho ↦ .proceed (fun y hy ↦ ht y (List.mem_cons_of_mem _ hy)) hs ho, rfl⟩
      · next hbeat =>
          have hf : s.fails (.sweep w) = some (f, some .running) := by
            simp only [State.fails, hat, if_neg hbeat]
          refine ⟨h, fun sw' ho ↦ .fail ht hs (h.decision hg hf (ht _ List.mem_cons_self).1 ?_ ?_) ho,
            rfl⟩
          · rintro ⟨⟩
          · intro _
            by_contra hl
            exact hbeat (h.beat (by simpa using hl))
  | commit swept =>
      simp only [State.sweepStep] at hn
      split at hn <;> cases hn
      · next st hw =>
          obtain ⟨hinv, hset⟩ := h.commit hok hw
          exact ⟨hinv, fun sw' ho ↦ .reportNext hset ho, rfl⟩
      · exact ⟨h, by rintro sw' ⟨⟩, rfl⟩
  | report f rest =>
      cases hn
      refine ⟨h.report (.inl ⟨f, rfl, hok f List.mem_cons_self⟩) rfl, ?_, rfl⟩
      rintro sw' ⟨⟩
      exact fun g hg ↦ hok g (List.mem_cons_of_mem _ hg)
  | reportSet f raw rest =>
      obtain ⟨j, hj, heq⟩ := Option.map_eq_some_iff.mp hn
      cases heq
      refine ⟨h.report (.inr ⟨f, raw, rfl⟩) hj, fun sw' ho ↦ .reportNext ?_ ho, ?_⟩
      · intro g hg
        simp only [Jobs.step, Option.ite_none_right_eq_some, Option.some.injEq] at hj
        obtain ⟨-, rfl⟩ := hj
        exact hok g hg
      · simp only [Jobs.step, Option.ite_none_right_eq_some, Option.some.injEq] at hj
        obtain ⟨-, rfl⟩ := hj
        rfl

theorem Inv.sweep (h : Inv s) {w : Option Nat} (hg : Checked s (.sweep w))
    (hn : Maintenance.step c s (.sweep w) = some s') : Inv s' := by
  obtain ⟨⟨startup, sw⟩, hat, hn⟩ := Option.bind_eq_some_iff.mp hn
  obtain ⟨⟨s₁, o⟩, hstep, rfl⟩ := Option.map_eq_some_iff.mp hn
  obtain ⟨hinv, hok, hpc⟩ := h.sweepStep hat hg hstep
  refine hinv.setSweep ?_ hok
  intro hw _
  subst hw
  obtain ⟨sw', hsw, -⟩ := Option.map_eq_some_iff.mp hat
  exact hpc.trans (h.startup sw' hsw).2

end Sweeps

/-! ## Runs -/

theorem Inv.step (h : Inv s) (hg : Checked s x) (hn : Maintenance.step c s x = some s') :
    Inv s' := by
  cases x with
  | upload =>
      cases hn
      exact h.upload
  | uploadLost f =>
      cases hn
      exact h.uploadLost f
  | enqueue f =>
      simp only [Maintenance.step, Option.ite_none_right_eq_some] at hn
      obtain ⟨hup, hn⟩ := hn
      cases hn
      refine h.enqueued (fun _ ↦ rfl) (Nat.le_refl _) ?_ List.erase_sublist (.inl ⟨hup, rfl⟩)
      have hperm : (s.uploads.erase f ++ (s.jobs.held ++ [f])).Perm s.live := by
        have h₁ : (s.uploads.erase f ++ (s.jobs.held ++ [f])).Perm
            (f :: (s.uploads.erase f ++ s.jobs.held)) := by
          rw [← List.append_assoc]
          exact List.perm_append_singleton _ _
        exact h₁.trans ((List.perm_cons_erase hup).symm.append_right _)
      exact hperm.nodup_iff.mpr h.nodup
  | other k p =>
      simp only [Maintenance.step, Option.ite_none_left_eq_some] at hn
      obtain ⟨hk, hn⟩ := hn
      cases hn
      refine h.enqueued (fun hx ↦ absurd hx hk) (Nat.le_succ _) ?_ (.refl _)
        (.inr ⟨rfl, Nat.lt_succ_self _⟩)
      rw [← List.append_assoc]
      exact (List.perm_append_singleton _ _).nodup_iff.mpr
        (List.nodup_cons.mpr ⟨h.next_not_live, h.nodup⟩)
  | delete f =>
      simp only [Maintenance.step, Option.ite_none_left_eq_some, Option.some.injEq] at hn
      obtain ⟨-, rfl⟩ := hn
      apply h.stores s.threads
      intro g r hr
      by_cases hgf : g = f
      · subst hgf
        simp [Stores.dropFile, Stores.setFile, Stores.setChunks] at hr
      · exact (Function.update_of_ne hgf _ _).symm.trans hr
  | jobs a => exact h.jobsStep hn
  | heartbeatExpires =>
      simp only [Maintenance.step, Option.ite_none_left_eq_some, Option.some.injEq] at hn
      obtain ⟨hl, rfl⟩ := hn
      exact ⟨h.jobs, h.nodup, h.live_lt, h.rows_lt, h.track, h.body, h.sync, h.sweeps, h.startup,
        h.reports, fun hx ↦ absurd hx hl⟩
  | index e =>
      simp only [Maintenance.step] at hn
      split at hn
      · next hb => exact h.index hb hn
      · cases hn
  | thread n =>
      simp only [Maintenance.step] at hn
      split at hn <;> cases hn
      next t _ => exact h.stores _ fun f r hr ↦ (congrFun (Thread.run_files t) f).symm.trans hr
  | sweepStart =>
      cases hn
      refine ⟨h.jobs, h.nodup, h.live_lt, h.rows_lt, h.track, h.body, h.sync, ?_, h.startup,
        h.reports, h.beat⟩
      intro sw hsw
      rcases List.mem_append.mp hsw with hsw | hsw
      · exact h.sweeps sw hsw
      · rw [List.mem_singleton.mp hsw]
        trivial
  | sweep w => exact h.sweep hg hn
  | sweepAbort w =>
      obtain ⟨y, -, rfl⟩ := Option.map_eq_some_iff.mp hn
      exact h.setSweep (fun _ hx ↦ absurd rfl hx) (by rintro sw ⟨⟩)

theorem Inv.reach (h : (system c).Reach Checked s) : Inv s :=
  h.invariant .init fun _ _ _ hs hg hn ↦ hs.step hg hn

/-- In every run in which each decision of a sweep to fail a file is taken while the file's
upload is not about to enqueue its job, its row is not terminal, and the recorded status is
the one that was read, a sweep changes no row that is `indexed`, and none of a file whose
job is about to be enqueued, is queued, or is with the worker. -/
theorem sweeps_orphans_only (h : (system c).Reach Checked s) {w : Option Nat}
    (hn : step c s (.sweep w) = some s') {r : FileRow} (hr : s.stores.files f = some r)
    (hne : s'.stores.files f ≠ some r) : r.status ≠ .indexed ∧ f ∉ s.live := by
  have hinv := Inv.reach h
  obtain ⟨⟨startup, sw⟩, hat, hn⟩ := Option.bind_eq_some_iff.mp hn
  obtain ⟨⟨s₁, o⟩, hstep, rfl⟩ := Option.map_eq_some_iff.mp hn
  have hst : (s₁.setSweep w o).stores = s₁.stores := by
    simp only [State.setSweep]
    split <;> rfl
  rw [hst] at hne
  have hsame : s₁.stores = s.stores → r.status ≠ .indexed ∧ f ∉ s.live :=
    fun heq ↦ absurd (heq ▸ hr) hne
  cases sw with
  | select =>
      cases hstep
      exact hsame rfl
  | check | alive =>
      simp only [State.sweepStep] at hstep
      split at hstep <;> cases hstep <;> exact hsame rfl
  | report =>
      cases hstep
      exact hsame rfl
  | reportSet =>
      obtain ⟨j, -, heq⟩ := Option.map_eq_some_iff.mp hstep
      cases heq
      exact hsame rfl
  | commit swept =>
      simp only [State.sweepStep] at hstep
      split at hstep
      · next st hw =>
          cases hstep
          have hok : SweptOk s swept := hinv.sweepAt_ok hat
          by_cases hf : f ∈ swept.map Prod.fst
          · obtain ⟨r', hr', hst, hlive⟩ := hok.orphan hw hf
            cases hr'.symm.trans hr
            exact ⟨hst, hlive⟩
          · exact absurd (((writeFiles_failed hok.fails hw).2 f hf).trans hr) hne
      · cases hstep
        exact hsame rfl

/-- The worker starts, sweeps, and waits for a job. -/
def workerUp : List Act :=
  [.jobs .start, .sweep none, .sweep none, .jobs (.beat .ok), .jobs .warm, .jobs (.beat .ok),
    .jobs (.beat .ok)]

/-- It takes the first job, and its task gets to the body. -/
def takeJob : List Act :=
  [.jobs (.pop .ok), .jobs (.fetch .ok), .jobs (.task .start), .jobs (.task (.reply .ok)),
    .jobs (.task (.reply .ok))]

/-- The worker dies while it indexes a file, and the app restarts, with another file queued. -/
def orphanedRun : List Act :=
  [.upload, .enqueue 0] ++ workerUp ++ takeJob ++
  [.index .ok, .index .ok, .index .ok, .upload, .enqueue 1, .jobs .crash, .heartbeatExpires,
    .sweepStart, .sweep (some 0), .sweep (some 0), .sweep (some 0), .sweep (some 0)]

/-- The hypotheses of `sweeps_orphans_only` are met by a run in which a sweep fails an
orphan, and leaves a queued file alone. -/
theorem sweeps_orphans_orphanedRun : ∃ s s', (system .sample).Reach Checked s ∧
    step .sample s (.sweep (some 0)) = some s' ∧
    s.stores.files 0 = some ⟨.processing, none⟩ ∧ s'.stores.files 0 = some ⟨.failed, some fileMsg⟩ ∧
    s'.stores.files 1 = some ⟨.pending, none⟩ ∧ 0 ∉ s.live := by
  obtain ⟨s, hs, hr⟩ := System.Reach.of_exec (S := system .sample) (g := Checked)
    (l := orphanedRun)
    (f := fun s ↦ (s.stores.files 0, (step .sample s (.sweep (some 0))).map fun s' ↦
      (s'.stores.files 0, s'.stores.files 1)))
    (b := (some ⟨.processing, none⟩, some (some ⟨.failed, some fileMsg⟩, some ⟨.pending, none⟩)))
    (by decide)
  have hrow : s.stores.files 0 = some ⟨.processing, none⟩ := congrArg Prod.fst hr
  obtain ⟨s', hn, hr'⟩ := Option.map_eq_some_iff.mp (congrArg Prod.snd hr)
  have hrow' : s'.stores.files 0 = some ⟨.failed, some fileMsg⟩ := congrArg Prod.fst hr'
  refine ⟨s, s', hs, hn, hrow, hrow', congrArg Prod.snd hr', ?_⟩
  refine (sweeps_orphans_only hs hn hrow ?_).2
  rw [hrow']
  rintro ⟨⟩

/-- The app's sweep selects a file that is being indexed, and asks about its job when it has
succeeded. -/
def indexedRun : List Act :=
  [.upload, .enqueue 0] ++ workerUp ++ takeJob ++
  [.index .ok, .index .ok, .index .ok, .index .ok, .index .ok, .index .ok, .sweepStart,
    .sweep (some 0), .index (.parsed []), .index .ok, .index .ok, .index .ok,
    .jobs (.task (.reply .ok)), .jobs (.task (.reply .ok)), .sweep (some 0)]

/-- The sweep of a starting worker asks about a file whose upload is between its commit and
the enqueueing. -/
def queuedRun : List Act :=
  [.upload, .jobs .start, .sweep none, .sweep none, .enqueue 0]

/-- A sweep can touch others than orphans: in one run it fails a file that is `indexed`, in
another one whose job is queued. -/
theorem staleSweepRuns :
    (∃ s s', (system .sample).Reachable s ∧ step .sample s (.sweep (some 0)) = some s' ∧
      s.stores.files 0 = some ⟨.indexed, none⟩ ∧
      s'.stores.files 0 = some ⟨.failed, some fileMsg⟩) ∧
    ∃ s s', (system .sample).Reachable s ∧ step .sample s (.sweep none) = some s' ∧
      s.jobs.redis.queue = [0] ∧ s.stores.files 0 = some ⟨.pending, none⟩ ∧
      s'.stores.files 0 = some ⟨.failed, some fileMsg⟩ := by
  constructor
  · obtain ⟨s, hs, hr⟩ := System.Reach.of_exec (S := system .sample) (g := fun _ _ ↦ True)
      (l := indexedRun)
      (f := fun s ↦ (s.stores.files 0, (step .sample s (.sweep (some 0))).map fun s' ↦
        s'.stores.files 0))
      (b := (some ⟨.indexed, none⟩, some (some ⟨.failed, some fileMsg⟩))) (by decide)
    obtain ⟨s', hn, hr'⟩ := Option.map_eq_some_iff.mp (congrArg Prod.snd hr)
    exact ⟨s, s', hs, hn, congrArg Prod.fst hr, hr'⟩
  · obtain ⟨s, hs, hr⟩ := System.Reach.of_exec (S := system .sample) (g := fun _ _ ↦ True)
      (l := queuedRun)
      (f := fun s ↦ (s.jobs.redis.queue, s.stores.files 0,
        (step .sample s (.sweep none)).map fun s' ↦ s'.stores.files 0))
      (b := ([0], some ⟨.pending, none⟩, some (some ⟨.failed, some fileMsg⟩)))
      (by decide)
    simp only [Prod.mk.injEq] at hr
    obtain ⟨hq, hrow, hstep⟩ := hr
    obtain ⟨s', hn, hr'⟩ := Option.map_eq_some_iff.mp hstep
    exact ⟨s, s', hs, hn, hq, hrow, hr'⟩

end Adapta.Maintenance
