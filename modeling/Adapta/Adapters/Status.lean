import Adapta.Adapters.Safety

/-!
# The status of an adapter

An adapter is `uploaded`, then `processing`, then `passed` or `failed` for good; an upload
whose job could not be enqueued goes to `failed` at once.

Three sessions write the status: the job's, the sweep's and that of an upload whose
enqueueing failed.  The last two write blindly: they commit `failed` whatever the row has
become since they read it.  The law holds in every run in which such a commit does not hit
a row that a live job run has loaded, nor one that has passed meanwhile
(`lawful_of_exclusive`).  The sweep of the app does not check this, and
`sweptJobRun_unlawful` is a run in which a `failed` row becomes `passed`.
-/

namespace Adapta.Adapters

open Lib

variable {c : Config} {s s' : State} {a b : AdapterId} {r r' : Adapter} {o : Tracked Adapter}
  {x : Act}

/-! ## The law -/

/-- The moves of the status; `processing` may be entered again on a redelivery. -/
def AdapterStatus.MayBecome : AdapterStatus → AdapterStatus → Prop
  | .uploaded, .uploaded | .uploaded, .processing | .uploaded, .failed => True
  | .processing, .processing | .processing, .passed | .processing, .failed => True
  | .passed, .passed | .failed, .failed => True
  | _, _ => False

theorem AdapterStatus.MayBecome.refl (t : AdapterStatus) : t.MayBecome t := by
  cases t <;> trivial

/-- What has not passed may fail. -/
theorem AdapterStatus.mayBecome_failed {t : AdapterStatus} (h : t ≠ .passed) :
    t.MayBecome .failed := by
  cases t <;> trivial

/-- A final status does not change. -/
theorem AdapterStatus.MayBecome.final {t t' : AdapterStatus} (h : t.MayBecome t')
    (ht : t = .passed ∨ t = .failed) : t' = t := by
  rcases ht with rfl | rfl <;> cases t' <;> first | rfl | cases h

/-- Every row of `s'` is a row of `s` whose status has moved lawfully, or a new one under
an id that was never used. -/
structure Lawful (s s' : State) : Prop where
  next_le : s.next ≤ s'.next
  rows : ∀ a r', s'.adapters a = some r' →
    (∃ r, s.adapters a = some r ∧ r.status.MayBecome r'.status) ∨
      (s.next ≤ a ∧ r'.status = .uploaded)

/-! ## Blind writes -/

/-- The rows to which a step commits `failed` without a look at them. -/
def State.blindWrites (s : State) : Act → List AdapterId
  | .sweepCommit n => (s.sweeps[n]?.getD []).map Prod.fst
  | .uploadFail i =>
      match s.reqs i with
      | .failing a _ => [a]
      | _ => []
  | _ => []

/-- The worker runs the job of `a` and has loaded its row. -/
def State.held (s : State) (a : AdapterId) : Bool := s.worker.any fun w ↦ w.1 = a ∧ w.2 ≠ .load

/-- The step commits `failed` to no row that a live run has loaded or that has passed. -/
def Exclusive (s : State) (x : Act) : Prop :=
  ∀ a ∈ s.blindWrites x, ¬s.held a ∧ (s.adapters a).map Adapter.status ≠ some .passed

instance (s : State) (x : Act) : Decidable (Exclusive s x) :=
  inferInstanceAs (Decidable (∀ a ∈ s.blindWrites x, _))

/-! ## The invariant -/

/-- The row, as long as it exists, is as the session last saw it. -/
def InSync (s : State) (a : AdapterId) (o : Tracked Adapter) : Prop :=
  ∀ r, s.adapters a = some r →
    r.status = o.saved.status ∧ r.failureReason = o.saved.failureReason

/-- The status and reason of a row that is being processed. -/
def Running (r : Adapter) : Prop := r.status = .processing ∧ r.failureReason = none

/-- What is known of the session of the job of `a`. -/
def JobSync (s : State) (a : AdapterId) : JobPc → Prop
  | .load => True
  | .startCommit o => InSync s a o ∧ Running o.now ∧
      (o.saved.status = .uploaded ∨ o.saved.status = .processing)
  | .dataset o | .convert o _ _ | .ggufCommit o _ _ | .probe o _ _ | .readRows o _ _
  | .score o _ _ _ => InSync s a o ∧ Running o.saved ∧ Running o.now
  | .endCommit o => InSync s a o ∧ Running o.saved ∧
      (o.now.status = .failed ∨ o.now.status = .passed ∧ o.now.failureReason = none)

structure StatusInv (s : State) : Prop where
  reason : ∀ a r, s.adapters a = some r → r.status = .passed → r.failureReason = none
  worker : ∀ a pc, s.worker = some (a, pc) → JobSync s a pc

theorem StatusInv.init : StatusInv State.init where
  reason := by rintro a r ⟨⟩
  worker := by rintro a pc ⟨⟩

/-- Only the row of `a` matters to the session of its job. -/
theorem JobSync.mono {pc : JobPc} (h : JobSync s a pc)
    (hr : pc ≠ .load → ∀ r, s'.adapters a = some r → s.adapters a = some r) :
    JobSync s' a pc := by
  cases pc with
  | load => trivial
  | startCommit | dataset | convert | ggufCommit | probe | readRows | score | endCommit =>
      exact ⟨fun r hr' ↦ h.1 r (hr (by rintro ⟨⟩) r hr'), h.2⟩

/-! ## Steps of the others -/

/-- A row after a step of anyone but the job: untouched, new, or written blindly. -/
inductive Touched (s : State) (x : Act) (a : AdapterId) (r' : Adapter) : Prop
  | same : s.adapters a = some r' → Touched s x a r'
  | new : s.next ≤ a → r'.status = .uploaded → Touched s x a r'
  | blind (r : Adapter) : a ∈ s.blindWrites x → s.adapters a = some r → Soft r r' →
      Touched s x a r'

/-- A quiet flush changes only the rows of its objects. -/
theorem writeRows_touched {l : List (AdapterId × Tracked Adapter)} :
    ∀ {rows rows' : Rows}, (∀ x ∈ l, Quiet x.2) → writeRows rows l = some rows' →
      ∀ a r', rows' a = some r' →
        rows a = some r' ∨ (a ∈ l.map Prod.fst ∧ ∃ r, rows a = some r ∧ Soft r r') := by
  induction l with
  | nil =>
      rintro rows rows' - ⟨⟩ a r' hr'
      exact .inl hr'
  | cons y l ih =>
      intro rows rows' hl h a r' hr'
      have hl' : ∀ z ∈ l, Quiet z.2 := fun z hz ↦ hl z (List.mem_cons_of_mem _ hz)
      by_cases ha : a ∈ (y :: l).map Prod.fst
      · obtain ⟨hnone, hsoft⟩ := softRows_of_writeRows hl h a
        cases hr : rows a with
        | none =>
            rw [hnone.mp hr] at hr'
            cases hr'
        | some r => exact .inr ⟨ha, r, rfl, hsoft r r' hr hr'⟩
      · rw [List.map_cons, List.mem_cons, not_or] at ha
        obtain ⟨rows₁, h₁, h₂⟩ := Option.bind_eq_some_iff.mp h
        rcases ih hl' h₂ a r' hr' with hr | ⟨hmem, -⟩
        · left
          rcases writeRow_cases h₁ with ⟨-, rfl⟩ | ⟨cur, -, rfl⟩
          · exact hr
          · rwa [Function.update_of_ne ha.1] at hr
        · exact absurd hmem ha.2

/-- What anyone but the job does. -/
structure Aside (s s' : State) (x : Act) : Prop where
  next_le : s.next ≤ s'.next
  worker : s'.worker = s.worker ∨ ∃ a, s'.worker = some (a, .load)
  rows : ∀ a r', s'.adapters a = some r' → Touched s x a r'

/-- A step that touches no row. -/
theorem Aside.of_eq (hn : s'.next = s.next) (ha : s'.adapters = s.adapters)
    (hw : s'.worker = s.worker ∨ ∃ a, s'.worker = some (a, .load)) : Aside s s' x :=
  ⟨Nat.le_of_eq hn.symm, hw, fun _ _ hr' ↦ .same (ha ▸ hr')⟩

/-- A step that flushes quiet objects. -/
theorem Aside.of_writeRows {l : List (AdapterId × Tracked Adapter)} (hn : s'.next = s.next)
    (hw : s'.worker = s.worker) (hq : ∀ y ∈ l, Quiet y.2)
    (hrows : writeRows s.adapters l = some s'.adapters) (hb : s.blindWrites x = l.map Prod.fst) :
    Aside s s' x := by
  refine ⟨Nat.le_of_eq hn.symm, .inl hw, ?_⟩
  intro a r' hr'
  rcases writeRows_touched hq hrows a r' hr' with hr | ⟨ha, r, hr, hs⟩
  · exact .same hr
  · exact .blind r (hb ▸ ha) hr hs

theorem aside_of_step (h : Inv c s) (hn : step c s x = some s') (hx : ∀ e, x ≠ .job e) :
    Aside s s' x := by
  cases Step.of_step hn with
  | job => exact absurd rfl (hx _)
  | project | dataset | uploadRead | uploadRefresh | enqueue | enqueueError | createPlain
  | createBound | createCommit | promoteRead | promoteCommit | deleteRead | abandon | sweepSelect
  | sweepAbort => exact Aside.of_eq rfl rfl (.inl rfl)
  | @take a => exact Aside.of_eq rfl rfl (.inr ⟨a, rfl⟩)
  | uploadInsert =>
      refine ⟨Nat.le_succ _, .inl rfl, ?_⟩
      intro a r' hr'
      by_cases ha : a = s.next
      · subst ha
        simp only [Function.update_self] at hr'
        cases hr'
        exact .new (Nat.le_refl _) rfl
      · simp only [Function.update_of_ne ha] at hr'
        exact .same hr'
  | @deleteCommit _ b =>
      refine ⟨Nat.le_refl _, .inl rfl, ?_⟩
      intro a r' hr'
      by_cases ha : a = b
      · subst ha
        simp only [Function.update_self] at hr'
        cases hr'
      · simp only [Function.update_of_ne ha] at hr'
        exact .same hr'
  | @uploadFail i b o rows hi hw =>
      have hreq : ReqOk s (.failing b o) := hi ▸ h.reqs i
      have hquiet : ∀ y ∈ [(b, o)], Quiet y.2 := by
        intro y hy
        rw [List.mem_singleton.mp hy]
        exact hreq
      have hws : writeRows s.adapters [(b, o)] = some rows := by
        rw [writeRows, hw]
        rfl
      exact Aside.of_writeRows rfl rfl hquiet hws (by rw [State.blindWrites, hi]; rfl)
  | @sweepCommit n l rows hl hw =>
      have hquiet := h.sweeps l (List.mem_of_getElem? hl)
      exact Aside.of_writeRows rfl rfl hquiet hw (by rw [State.blindWrites, hl]; rfl)

theorem held_of_worker {pc : JobPc} (hw : s.worker = some (a, pc)) (hpc : pc ≠ .load) :
    s.held a = true := by
  simp [State.held, hw, hpc]

/-- The row a job has loaded is an old one. -/
theorem JobOk.lt {pc : JobPc} (h : JobOk c s a pc) (hpc : pc ≠ .load) : a < s.next := by
  cases pc with
  | load => exact absurd rfl hpc
  | startCommit | dataset | convert | ggufCommit | probe | readRows | score | endCommit =>
      exact h.1.lt

/-- A blind write to a row that has not passed is lawful. -/
theorem Soft.mayBecome (h : Soft r r') (hr : r.status ≠ .passed) :
    r.status.MayBecome r'.status := by
  rcases h.status with he | he
  · rw [he]
    exact .refl _
  · rw [he]
    exact AdapterStatus.mayBecome_failed hr

/-- A soft write does not let a row pass. -/
theorem Soft.not_passed (h : Soft r r') (hr : r.status ≠ .passed) : r'.status ≠ .passed := by
  intro hp
  rcases h.status with he | he
  · exact hr (he.symm.trans hp)
  · cases he.symm.trans hp

theorem Exclusive.not_passed (h : Exclusive s x) (ha : a ∈ s.blindWrites x)
    (hr : s.adapters a = some r) : r.status ≠ .passed := by
  intro hp
  apply (h a ha).2
  rw [hr, ← hp]
  rfl

theorem StatusInv.other (h : StatusInv s) (hi : Inv c s) (hx : ∀ e, x ≠ .job e)
    (hg : Exclusive s x) (hn : step c s x = some s') : StatusInv s' ∧ Lawful s s' := by
  obtain ⟨hnext, hw, hrows⟩ := aside_of_step hi hn hx
  refine ⟨⟨?_, ?_⟩, hnext, ?_⟩
  · intro a r' hr' hp
    cases hrows a r' hr' with
    | same hr => exact h.reason a r' hr hp
    | new _ hst => cases hst.symm.trans hp
    | blind r ha hr hs => exact absurd hp (hs.not_passed (hg.not_passed ha hr))
  · intro a pc hpc
    rcases hw with hw | ⟨b, hw⟩
    · rw [hw] at hpc
      apply (h.worker a pc hpc).mono
      intro hload r' hr'
      cases hrows a r' hr' with
      | same hr => exact hr
      | new hge _ => exact absurd ((hi.worker a pc hpc).lt hload) (Nat.not_lt_of_le hge)
      | blind r ha hr hs => exact absurd (held_of_worker hpc hload) (hg a ha).1
    · rw [hw] at hpc
      cases hpc
      trivial
  · intro a r' hr'
    cases hrows a r' hr' with
    | same hr => exact .inl ⟨r', hr, .refl _⟩
    | new hge hst => exact .inr ⟨hge, hst⟩
    | blind r ha hr hs => exact .inl ⟨r, hr, hs.mayBecome (hg.not_passed ha hr)⟩

/-! ## Steps of the job -/

namespace InSync

/-- In step with its row, a session writes its own view. -/
theorem flush (h : InSync s a o) (hr : s.adapters a = some r) :
    (r.flush o).status = o.now.status ∧ (r.flush o).failureReason = o.now.failureReason := by
  obtain ⟨hs, hf⟩ := h r hr
  simp [Adapter.flush, hs, hf]

theorem committed (h : InSync s a o) {rows : Rows} (hw : writeRow s.adapters a o = some rows) :
    InSync { s with adapters := rows } a o.committed := by
  intro r hr
  rcases writeRow_cases hw with ⟨hnone, rfl⟩ | ⟨cur, hcur, rfl⟩
  · cases hnone.symm.trans hr
  · simp only [Function.update_self] at hr
    cases hr
    exact h.flush hcur

/-- A commit of a running job does not touch the status. -/
theorem mayWrite (h : InSync s a o) (hsaved : Running o.saved) (hnow : Running o.now)
    {rows : Rows} (hw : MayWrite s a o rows) : InSync { s with adapters := rows } a o := by
  intro r hr
  rcases hw with rfl | ⟨cur, hcur, rfl⟩
  · exact h r hr
  · simp only [Function.update_self] at hr
    cases hr
    obtain ⟨hs, hf⟩ := h.flush hcur
    exact ⟨(hs.trans hnow.1).trans hsaved.1.symm, (hf.trans hnow.2).trans hsaved.2.symm⟩

end InSync

namespace JobSync

theorem failed (h : InSync s a o) (hr : Running o.saved) (message : Option String) :
    JobSync s a (.failed o message) := ⟨h, hr, .inl rfl⟩

theorem afterRaise {pc p : JobPc} (h : JobSync s a pc) {message : Option String}
    (hp : pc.afterRaise message = some p) : JobSync s a p := by
  cases pc with
  | load | startCommit | endCommit => cases hp
  | dataset | convert | ggufCommit | probe | readRows | score =>
      cases hp
      exact failed h.1 h.2.1 message

theorem afterCommit {pc p : JobPc} (h : JobSync s a pc) (ho : pc.flushing = some o) {rows : Rows}
    (hw : writeRow s.adapters a o = some rows) (hp : pc.afterCommit = some p) :
    JobSync { s with adapters := rows } a p := by
  cases pc with
  | load | dataset | convert | probe | readRows | score | endCommit => cases hp
  | startCommit =>
      cases ho
      cases hp
      exact ⟨h.1.committed hw, h.2.1, h.2.1⟩
  | ggufCommit =>
      cases ho
      cases hp
      exact ⟨h.1.committed hw, h.2.2, h.2.2⟩

theorem loaded (hr : s.adapters a = some r) (hst : ¬(r.status = .passed ∨ r.status = .failed)) :
    JobSync s a (.startCommit ((Tracked.load r).assign fun r ↦
      { r with status := .processing, failureReason := none })) := by
  refine ⟨?_, ⟨rfl, rfl⟩, ?_⟩
  · intro r' hr'
    cases hr.symm.trans hr'
    exact ⟨rfl, rfl⟩
  · show r.status = .uploaded ∨ r.status = .processing
    cases h : r.status with
    | uploaded => exact .inl rfl
    | processing => exact .inr rfl
    | passed => exact absurd (.inl h) hst
    | failed => exact absurd (.inr h) hst

theorem afterDataset (h : InSync s a o) (hs : Running o.saved) (hnow : Running o.now)
    (d : Option Dataset) : JobSync s a (afterDataset c o d) := by
  rw [Adapters.afterDataset]
  split
  · exact failed h hs _
  · exact failed h hs _
  · exact failed h hs _
  · split
    · exact ⟨h, hs, hnow⟩
    · exact ⟨h, hs, hnow⟩

theorem converted {base : String} {task : EvalTask} (h : InSync s a o) (hs : Running o.saved)
    (hnow : Running o.now) : JobSync s a (.ggufCommit (o.assign (setGguf c)) base task) :=
  ⟨h, hs, hnow⟩

theorem scored (h : InSync s a o) (hs : Running o.saved) (hnow : Running o.now) (m : Metrics) :
    JobSync s a (.endCommit (o.assign (verdict c m))) := by
  refine ⟨h, hs, ?_⟩
  show (verdict c m o.now).status = .failed ∨
    (verdict c m o.now).status = .passed ∧ (verdict c m o.now).failureReason = none
  rw [verdict]
  split
  · exact .inr ⟨rfl, hnow.2⟩
  · exact .inl rfl

/-- Every commit of the job is a lawful move from what the session has seen. -/
theorem flushing {pc : JobPc} (h : JobSync s a pc) (ho : pc.flushing = some o) :
    InSync s a o ∧ o.saved.status.MayBecome o.now.status ∧
      (o.now.status = .passed → o.now.failureReason = none) := by
  cases pc with
  | load | dataset | convert | probe | readRows | score => cases ho
  | startCommit =>
      cases ho
      obtain ⟨hsync, ⟨hst, hreason⟩, hsaved⟩ := h
      refine ⟨hsync, ?_, fun _ ↦ hreason⟩
      rcases hsaved with hs | hs <;> rw [hs, hst] <;> trivial
  | ggufCommit =>
      cases ho
      obtain ⟨hsync, hs, hnow⟩ := h
      refine ⟨hsync, ?_, fun _ ↦ hnow.2⟩
      rw [hs.1, hnow.1]
      trivial
  | endCommit =>
      cases ho
      obtain ⟨hsync, hs, hnow⟩ := h
      refine ⟨hsync, ?_, ?_⟩
      · rcases hnow with hf | ⟨hp, -⟩
        · rw [hs.1, hf]
          trivial
        · rw [hs.1, hp]
          trivial
      · intro hp
        rcases hnow with hf | ⟨-, hreason⟩
        · cases hf.symm.trans hp
        · exact hreason

end JobSync

namespace StatusInv

/-- A move of the worker that writes nothing. -/
theorem jobAt (h : StatusInv s) {evals : List Eval} {pc : Option JobPc}
    (hpc : ∀ p, pc = some p → JobSync s a p) :
    StatusInv ({ s with evals := evals }.jobAt a pc) ∧
      Lawful s ({ s with evals := evals }.jobAt a pc) := by
  refine ⟨⟨h.reason, ?_⟩, Nat.le_refl _, fun b r' hr' ↦ .inl ⟨r', hr', .refl _⟩⟩
  intro b p hb
  obtain ⟨p', hp', he⟩ := Option.map_eq_some_iff.mp hb
  cases he
  exact (hpc p hp').mono fun _ _ hr ↦ hr

/-- A commit of the job. -/
theorem jobWrite (h : StatusInv s) (hsync : InSync s a o)
    (hmove : o.saved.status.MayBecome o.now.status)
    (hreason : o.now.status = .passed → o.now.failureReason = none) {rows : Rows}
    (hw : MayWrite s a o rows) {pc : Option JobPc}
    (hpc : ∀ p, pc = some p → JobSync { s with adapters := rows } a p) :
    StatusInv ({ s with adapters := rows }.jobAt a pc) ∧
      Lawful s ({ s with adapters := rows }.jobAt a pc) := by
  have hrow : ∀ b r', rows b = some r' → s.adapters b = some r' ∨
      (∃ r, s.adapters b = some r ∧ r.status.MayBecome r'.status) ∧
        (r'.status = .passed → r'.failureReason = none) := by
    intro b r' hr'
    rcases hw with rfl | ⟨cur, hcur, rfl⟩
    · exact .inl hr'
    · by_cases hb : b = a
      · subst hb
        rw [Function.update_self] at hr'
        cases hr'
        obtain ⟨hs, hf⟩ := hsync.flush hcur
        refine .inr ⟨⟨cur, hcur, ?_⟩, ?_⟩
        · rw [hs, (hsync cur hcur).1]
          exact hmove
        · rw [hs, hf]
          exact hreason
      · rw [Function.update_of_ne hb] at hr'
        exact .inl hr'
  refine ⟨⟨?_, ?_⟩, Nat.le_refl _, fun b r' hr' ↦ .inl ?_⟩
  · intro b r' hr' hp
    rcases hrow b r' hr' with hr | ⟨-, hreason'⟩
    · exact h.reason b r' hr hp
    · exact hreason' hp
  · intro b p hb
    obtain ⟨p', hp', he⟩ := Option.map_eq_some_iff.mp hb
    cases he
    exact (hpc p hp').mono fun _ _ hr ↦ hr
  · rcases hrow b r' hr' with hr | ⟨hr, -⟩
    · exact ⟨r', hr, .refl _⟩
    · exact hr

/-- Every event of the job keeps the law. -/
theorem job (h : StatusInv s) {pc : JobPc} (hpc : JobSync s a pc) {e : JobEv}
    (hn : JobStep c s a pc e s') : StatusInv s' ∧ Lawful s s' := by
  have hto : ∀ p, JobSync s a p → ∀ evals,
      StatusInv ({ s with evals := evals }.jobAt a (some p)) ∧
        Lawful s ({ s with evals := evals }.jobAt a (some p)) := by
    intro p hp evals
    apply h.jobAt
    rintro _ ⟨⟩
    exact hp
  have hend : StatusInv (s.jobAt a none) ∧ Lawful s (s.jobAt a none) :=
    h.jobAt (by rintro _ ⟨⟩)
  cases hn with
  | gone | settled => exact hend
  | loaded hr hst => exact hto _ (.loaded hr hst) s.evals
  | commit ho hw =>
      obtain ⟨hsync, hmove, hreason⟩ := hpc.flushing ho
      exact h.jobWrite hsync hmove hreason (mayWrite_of_writeRow hw)
        fun p hp ↦ hpc.afterCommit ho hw hp
  | stale => exact h.jobAt fun p hp ↦ hpc.afterRaise hp
  | @commitError _ o applied ho =>
      obtain ⟨hsync, hmove, hreason⟩ := hpc.flushing ho
      have hw : MayWrite s a o (s.mayWrite a pc applied) := mayWrite_flushing ho applied
      apply h.jobWrite hsync hmove hreason hw
      intro p hp
      -- only the commit of the path goes on after an exception
      cases pc <;> cases ho <;> cases hp
      exact .failed (hsync.mayWrite hpc.2.1 hpc.2.2 hw) hpc.2.1 none
  | datasetRead => exact hto _ (.afterDataset hpc.1 hpc.2.1 hpc.2.2 _) s.evals
  | converted => exact hto _ (.converted hpc.1 hpc.2.1 hpc.2.2) s.evals
  | probed => exact hto (.readRows _ _ _) hpc s.evals
  | rowsRead => exact hto (.score _ _ _ _) hpc s.evals
  | scored => exact hto _ (.scored hpc.1 hpc.2.1 hpc.2.2 _) _
  | raised => exact h.jobAt fun p hp ↦ hpc.afterRaise hp
  | @cancel _ applied =>
      cases ho : pc.flushing with
      | none =>
          rw [mayWrite_of_not_flushing ho]
          exact hend
      | some o =>
          obtain ⟨hsync, hmove, hreason⟩ := hpc.flushing ho
          exact h.jobWrite hsync hmove hreason (mayWrite_flushing ho applied) (by rintro _ ⟨⟩)

theorem step (h : StatusInv s) (hi : Inv c s) (hg : Exclusive s x)
    (hn : Adapters.step c s x = some s') : StatusInv s' ∧ Lawful s s' := by
  by_cases hx : ∃ e, x = .job e
  · obtain ⟨e, rfl⟩ := hx
    cases Step.of_step hn with
    | job hw hn => exact h.job (h.worker _ _ hw) hn
  · exact h.other hi (fun e he ↦ hx ⟨e, he⟩) hg hn

end StatusInv

/-! ## Runs -/

theorem StatusInv.of_reach (h : (system c).Reach Exclusive s) : Inv c s ∧ StatusInv s := by
  apply h.invariant (P := fun s ↦ Inv c s ∧ StatusInv s) ⟨Inv.init c, .init⟩
  rintro s x s' ⟨hi, hs⟩ hg hn
  exact ⟨hi.step hn, (hs.step hi hg hn).1⟩

/-- A row keeps a final status as long as it exists; its id is not used again. -/
theorem final_of_steps (h : (system c).Reach Exclusive s) (hr : s.adapters a = some r)
    (hf : r.status = .passed ∨ r.status = .failed) (hs : (system c).Steps Exclusive s s') :
    a < s'.next ∧ ∀ r', s'.adapters a = some r' → r'.status = r.status := by
  induction hs with
  | refl =>
      refine ⟨((StatusInv.of_reach h).1.rows a r hr).lt, ?_⟩
      intro r' hr'
      cases hr.symm.trans hr'
      rfl
  | tail hs hstep ih =>
      obtain ⟨x, hg, hn⟩ := hstep
      obtain ⟨hi, hst⟩ := StatusInv.of_reach (h.steps hs)
      have hlaw := (hst.step hi hg hn).2
      refine ⟨Nat.lt_of_lt_of_le ih.1 hlaw.next_le, ?_⟩
      intro r' hr'
      rcases hlaw.rows a r' hr' with ⟨r₁, hr₁, hmove⟩ | ⟨hge, -⟩
      · have he := ih.2 r₁ hr₁
        exact (hmove.final (he ▸ hf)).trans he
      · exact absurd ih.1 (Nat.not_lt_of_le hge)

/-- **The status machine.**  In every run in which no blind write hits a row that a live
job has loaded or that has passed: every step moves every row lawfully, a final status is
kept for good, and a `passed` row has no failure reason. -/
theorem lawful_of_exclusive (c : Config) (s : State) (h : (system c).Reach Exclusive s) :
    (∀ x s', Exclusive s x → step c s x = some s' → Lawful s s') ∧
      (∀ s', (system c).Steps Exclusive s s' → ∀ a r r', s.adapters a = some r →
        r.status = .passed ∨ r.status = .failed → s'.adapters a = some r' →
          r'.status = r.status) ∧
      ∀ a r, s.adapters a = some r → r.status = .passed → r.failureReason = none := by
  obtain ⟨hi, hs⟩ := StatusInv.of_reach h
  refine ⟨fun x s' hg hn ↦ (hs.step hi hg hn).2, ?_, hs.reason⟩
  intro s' hss a r r' hr hf hr'
  exact (final_of_steps h hr hf hss).2 r' hr'

/-- A first adapter's job is killed and swept; a second adapter passes. -/
def orphanRun : List Act :=
  [.project 0 ⟨.finetune, "org/tiny"⟩, .dataset 0 (some ⟨0, true, some .classify⟩),
    .uploadRead 0 0 0 .gguf, .uploadInsert 0, .uploadRefresh 0, .enqueue 0,
    .take 0, .job .loaded, .job (.commit .ok), .job (.cancel false),
    .sweepSelect, .sweepCommit 0,
    .uploadRead 1 0 0 .gguf, .uploadInsert 1, .uploadRefresh 1, .enqueue 1,
    .take 1, .job .loaded, .job (.commit .ok), .job .datasetRead, .job .probed,
    .job (.rowsRead 20), .job (.scored (19 / 20) (1 / 2)), .job (.commit .ok)]

/-- The hypothesis of `lawful_of_exclusive` is met by a run with a sweep. -/
theorem lawful_orphanRun : ∃ s, (system oneBase).Reach Exclusive s ∧
    (s.adapters 0).map Adapter.status = some .failed ∧
    (s.adapters 1).map Adapter.status = some .passed ∧
    (∀ x s', Exclusive s x → step oneBase s x = some s' → Lawful s s') ∧
    ∀ a r, s.adapters a = some r → r.status = .passed → r.failureReason = none := by
  obtain ⟨s, hs, hr⟩ := System.Reach.of_exec (S := system oneBase) (g := Exclusive)
    (l := orphanRun)
    (f := fun s ↦ ((s.adapters 0).map Adapter.status, (s.adapters 1).map Adapter.status))
    (b := (some .failed, some .passed)) (by with_unfolding_all decide)
  obtain ⟨hstep, -, hreason⟩ := lawful_of_exclusive oneBase s hs
  exact ⟨s, hs, congrArg Prod.fst hr, congrArg Prod.snd hr, hstep, hreason⟩

/-- The app restarts while the worker evaluates an adapter: its sweep selects and fails the
row, and the job goes on to its last commit. -/
def sweptJobRun : List Act :=
  [.project 0 ⟨.finetune, "org/tiny"⟩, .dataset 0 (some ⟨0, true, some .classify⟩),
    .uploadRead 0 0 0 .gguf, .uploadInsert 0, .uploadRefresh 0, .enqueue 0,
    .take 0, .job .loaded, .job (.commit .ok), .job .datasetRead, .job .probed,
    .job (.rowsRead 20), .sweepSelect, .sweepCommit 0, .job (.scored (19 / 20) (1 / 2))]

/-- The status machine is not kept by every run: the last commit of the job moves the row
from `failed` to `passed`, and leaves the reason of the sweep. -/
theorem sweptJobRun_unlawful : ∃ s s', (system oneBase).Reachable s ∧
    step oneBase s (.job (.commit .ok)) = some s' ∧ ¬Lawful s s' ∧
    ∃ r r', s.adapters 0 = some r ∧ r.status = .failed ∧ s'.adapters 0 = some r' ∧
      r'.status = .passed ∧ r'.failureReason = some adapterMsg := by
  obtain ⟨s, hs, hr⟩ := System.Reach.of_exec (S := system oneBase) (g := fun _ _ ↦ True)
    (l := sweptJobRun)
    (f := fun s ↦ ((s.adapters 0).map Adapter.status,
      (step oneBase s (.job (.commit .ok))).map fun s' ↦
        (s'.adapters 0).map fun r ↦ (r.status, r.failureReason)))
    (b := (some .failed, some (some (.passed, some adapterMsg)))) (by with_unfolding_all decide)
  obtain ⟨r, hrow, hst⟩ := Option.map_eq_some_iff.mp (congrArg Prod.fst hr)
  obtain ⟨s', hn, hr'⟩ := Option.map_eq_some_iff.mp (congrArg Prod.snd hr)
  obtain ⟨r', hrow', hst'⟩ := Option.map_eq_some_iff.mp hr'
  have hpassed : r'.status = .passed := congrArg Prod.fst hst'
  refine ⟨s, s', hs, hn, ?_, r, r', hrow, hst, hrow', hpassed, congrArg Prod.snd hst'⟩
  intro hlaw
  rcases hlaw.rows 0 r' hrow' with ⟨r₀, hr₀, hmove⟩ | ⟨-, hup⟩
  · cases hrow.symm.trans hr₀
    rw [hst, hpassed] at hmove
    exact hmove
  · cases hup.symm.trans hpassed

end Adapta.Adapters
