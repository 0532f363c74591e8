import Adapta.Adapters.Life

/-!
# Eval-gate safety

Whatever the order of uploads, jobs, interruptions, sweeps, deletions and bindings, an
endpoint that is bound to an adapter is bound to one that passed the gate: `BindingsGated`.

The adapter's status is not what carries this, since the sweep may overwrite it at any
time.  What does not change once it is there is a passing `eval_metrics` document:

* only the job writes `eval_metrics` and `gguf_path`, both of them from its own session,
  so its view of these columns stays in step with the row (`Held`);
* a job that has loaded a row found it neither `passed` nor `failed`, so the row has no
  passing document yet (`RowOk`), and no binding of it can be under way;
* all other writers change `status` and `failure_reason` only (`Soft`).
-/

namespace Adapta.Adapters

open Lib

variable {c : Config} {s s' : State} {a b : AdapterId} {r r' : Adapter} {o : Tracked Adapter}

/-! ## What a bound adapter must be -/

/-- The row has a non-empty GGUF path. -/
def HasGguf (r : Adapter) : Prop := ∃ g, r.ggufPath = some g ∧ g ≠ ""

/-- The row has an `eval_metrics` document with `passed = true`. -/
def Passing (r : Adapter) : Prop := ∃ m, r.evalMetrics = some m ∧ m.passed = true

/-- The row's document is the result of an evaluation of its base with its GGUF, for a task
that can gate. -/
structure Gated (evals : List Eval) (r : Adapter) : Prop where
  gguf : HasGguf r
  passing : Passing r
  evaluated : ∀ g m, r.ggufPath = some g → r.evalMetrics = some m →
    ⟨r.baseModel, g, m⟩ ∈ evals ∧ (m.task = .classify ∨ m.task = .extract)

/-- Every binding is of an existing, gated adapter of the same project and base. -/
def BindingsGated (c : Config) (s : State) : Prop :=
  ∀ p e a, s.endpoints.lookup p = some e → e.adapterId = some a →
    ∃ r, s.adapters a = some r ∧ r.project = p ∧
      (∃ entry, resolve c.catalog e.baseModel = some entry ∧ r.baseModel = entry.name) ∧
      Gated s.evals r

/-! ## Writes -/

/-- A change of `status` to `failed` and of `failure_reason`, and of nothing else. -/
structure Soft (r r' : Adapter) : Prop where
  project : r'.project = r.project
  baseModel : r'.baseModel = r.baseModel
  format : r'.format = r.format
  ggufPath : r'.ggufPath = r.ggufPath
  evalMetrics : r'.evalMetrics = r.evalMetrics
  status : r'.status = r.status ∨ r'.status = .failed

namespace Soft

protected theorem refl (r : Adapter) : Soft r r := ⟨rfl, rfl, rfl, rfl, rfl, .inl rfl⟩

protected theorem trans {r'' : Adapter} (h : Soft r r') (h' : Soft r' r'') : Soft r r'' where
  project := h'.project.trans h.project
  baseModel := h'.baseModel.trans h.baseModel
  format := h'.format.trans h.format
  ggufPath := h'.ggufPath.trans h.ggufPath
  evalMetrics := h'.evalMetrics.trans h.evalMetrics
  status := by
    rcases h'.status with he | he
    · rw [he]
      exact h.status
    · exact .inr he

theorem passing_iff (h : Soft r r') : Passing r' ↔ Passing r := by
  rw [Passing, Passing, h.evalMetrics]

theorem gated (h : Soft r r') {l l' : List Eval} (hl : ∀ e ∈ l, e ∈ l') (hr : Gated l r) :
    Gated l' r' where
  gguf := by
    obtain ⟨g, hg⟩ := hr.gguf
    exact ⟨g, by rw [h.ggufPath]; exact hg⟩
  passing := h.passing_iff.mpr hr.passing
  evaluated g m hg hm := by
    rw [h.ggufPath] at hg
    rw [h.evalMetrics] at hm
    obtain ⟨hmem, htask⟩ := hr.evaluated g m hg hm
    rw [h.baseModel]
    exact ⟨hl _ hmem, htask⟩

end Soft

/-- An object whose flush is `Soft`: the sweep's, and that of a failed enqueue. -/
structure Quiet (o : Tracked Adapter) : Prop where
  ggufPath : o.now.ggufPath = o.saved.ggufPath
  evalMetrics : o.now.evalMetrics = o.saved.evalMetrics
  status : o.now.status = .failed

theorem Quiet.soft (h : Quiet o) (cur : Adapter) : Soft cur (cur.flush o) where
  project := rfl
  baseModel := rfl
  format := rfl
  ggufPath := by rw [Adapter.flush, h.ggufPath, flushField_same]
  evalMetrics := by rw [Adapter.flush, h.evalMetrics, flushField_same]
  status := by
    rcases flushField_eq_or o.saved.status o.now.status cur.status with he | ⟨-, he⟩
    · exact .inr (he.trans h.status)
    · exact .inl he

/-- A table after soft writes: the same rows, each changed softly. -/
def SoftRows (rows rows' : Rows) : Prop :=
  ∀ a, (rows a = none ↔ rows' a = none) ∧
    ∀ r r', rows a = some r → rows' a = some r' → Soft r r'

theorem SoftRows.refl (rows : Rows) : SoftRows rows rows := by
  intro a
  refine ⟨Iff.rfl, ?_⟩
  intro r r' hr hr'
  cases hr.symm.trans hr'
  exact .refl r

theorem SoftRows.trans {rows rows' rows'' : Rows} (h : SoftRows rows rows')
    (h' : SoftRows rows' rows'') : SoftRows rows rows'' := by
  intro a
  refine ⟨(h a).1.trans (h' a).1, ?_⟩
  intro r r'' hr hr''
  cases hr' : rows' a with
  | none =>
      rw [(h a).1.mpr hr'] at hr
      cases hr
  | some r' => exact ((h a).2 r r' hr hr').trans ((h' a).2 r' r'' hr' hr'')

theorem softRows_of_writeRow {rows rows' : Rows} (ho : Quiet o)
    (h : writeRow rows a o = some rows') : SoftRows rows rows' := by
  rw [writeRow] at h
  split at h
  · cases h
    exact .refl rows
  · obtain ⟨cur, hcur, rfl⟩ := Option.map_eq_some_iff.mp h
    intro b
    by_cases hb : b = a
    · subst hb
      rw [Function.update_self, hcur]
      refine ⟨by simp, ?_⟩
      rintro r r' ⟨⟩ ⟨⟩
      exact ho.soft cur
    · rw [Function.update_of_ne hb]
      exact SoftRows.refl rows b

/-- The commit of a sweep. -/
theorem softRows_of_writeRows {l : List (AdapterId × Tracked Adapter)} :
    ∀ {rows rows' : Rows}, (∀ x ∈ l, Quiet x.2) → writeRows rows l = some rows' →
      SoftRows rows rows' := by
  induction l with
  | nil =>
      rintro rows rows' - ⟨⟩
      exact .refl rows
  | cons x l ih =>
      intro rows rows' hl h
      obtain ⟨rows₁, h₁, h₂⟩ := Option.bind_eq_some_iff.mp h
      have hx := softRows_of_writeRow (hl x List.mem_cons_self) h₁
      exact hx.trans (ih (fun y hy ↦ hl y (List.mem_cons_of_mem _ hy)) h₂)

/-! ## The invariant -/

/-- What is known of a committed row. -/
structure RowOk (c : Config) (s : State) (a : AdapterId) (r : Adapter) : Prop where
  lt : a < s.next
  base : ∃ x entry, s.projects r.project = some x ∧ resolve c.catalog x.baseModel = some entry ∧
    r.baseModel = entry.name
  gguf : r.format = .gguf → HasGguf r
  passed : r.status = .passed → Passing r
  passing : Passing r → Gated s.evals r ∧ (r.status = .passed ∨ r.status = .failed)

/-- What is known of the session object of a job that has loaded its row: as long as the
row exists, it has no passing document, and the columns only the job writes are as the
session last saw them, or as a commit that raised has left them. -/
structure Held (c : Config) (s : State) (a : AdapterId) (o : Tracked Adapter) : Prop where
  lt : a < s.next
  name : ∃ entry, resolve c.catalog o.now.baseModel = some entry ∧ entry.name = o.now.baseModel
  gguf : o.now.format = .gguf → HasGguf o.now
  saved : o.saved.status ≠ .passed
  sync : ∀ r, s.adapters a = some r → r.baseModel = o.now.baseModel ∧ r.format = o.now.format ∧
    (r.ggufPath = o.saved.ggufPath ∨ r.ggufPath = o.now.ggufPath) ∧
    r.evalMetrics = o.saved.evalMetrics ∧ ¬Passing r

/-- The job has not assigned a path yet. -/
def Plain (o : Tracked Adapter) : Prop := o.now.ggufPath = o.saved.ggufPath

/-- The object carries no verdict yet. -/
structure Open (o : Tracked Adapter) : Prop where
  passing : ¬Passing o.now
  status : o.now.status ≠ .passed
  evalMetrics : o.now.evalMetrics = o.saved.evalMetrics

/-- A verdict may be committed. -/
structure Verdict (evals : List Eval) (r : Adapter) : Prop where
  passed : r.status = .passed → Passing r
  passing : Passing r → Gated evals r ∧ r.status = .passed

theorem Open.verdict (h : Open o) (evals : List Eval) : Verdict evals o.now :=
  ⟨fun hs ↦ absurd hs h.status, fun hp ↦ absurd hp h.passing⟩

/-- The checks of a job have established its base and task. -/
def Checked (o : Tracked Adapter) (base : String) (task : EvalTask) : Prop :=
  base = o.now.baseModel ∧ (task = .classify ∨ task = .extract)

def JobOk (c : Config) (s : State) (a : AdapterId) : JobPc → Prop
  | .load => True
  | .startCommit o | .dataset o => Held c s a o ∧ Open o ∧ Plain o
  | .convert o base task => Held c s a o ∧ Open o ∧ Plain o ∧ Checked o base task
  | .ggufCommit o base task | .probe o base task | .readRows o base task | .score o base task _ =>
      Held c s a o ∧ Open o ∧ Checked o base task ∧ HasGguf o.now
  | .endCommit o => Held c s a o ∧ Verdict s.evals o.now

/-- A binding of `a` to the endpoint of `p` may be committed. -/
def Bindable (s : State) (p : ProjectId) (a : AdapterId) : Prop :=
  a < s.next ∧ ∀ r, s.adapters a = some r → r.project = p ∧ Passing r

/-- The project's base model is `base`. -/
def HasBase (s : State) (p : ProjectId) (base : String) : Prop :=
  ∃ x, s.projects p = some x ∧ x.baseModel = base

def ReqOk (s : State) : Req → Prop
  | .uploading p base _ _ => HasBase s p base
  | .enqueuing _ o => o.now = o.saved
  | .failing _ o => Quiet o
  | .creating p base a => HasBase s p base ∧ ∀ b, a = some b → Bindable s p b
  | .promoting p a => Bindable s p a
  | .absent | .refreshing _ | .deleting _ | .ended => True

structure EndpointOk (s : State) (p : ProjectId) (e : Endpoint) : Prop where
  base : HasBase s p e.baseModel
  bound : ∀ a, e.adapterId = some a → ∃ r, s.adapters a = some r ∧ r.project = p ∧ Passing r

/-- The invariant of the system. -/
structure Inv (c : Config) (s : State) : Prop where
  rows : ∀ a r, s.adapters a = some r → RowOk c s a r
  worker : ∀ a pc, s.worker = some (a, pc) → JobOk c s a pc
  sweeps : ∀ l ∈ s.sweeps, ∀ x ∈ l, Quiet x.2
  reqs : ∀ i, ReqOk s (s.reqs i)
  endpoints : ∀ p e, s.endpoints.lookup p = some e → EndpointOk s p e

theorem Inv.bindingsGated (h : Inv c s) : BindingsGated c s := by
  intro p e a he ha
  obtain ⟨x, hx, hbase⟩ := (h.endpoints p e he).base
  obtain ⟨r, hr, hp, hpass⟩ := (h.endpoints p e he).bound a ha
  obtain ⟨x', entry, hx', hentry, hname⟩ := (h.rows a r hr).base
  rw [hp, hx, Option.some.injEq] at hx'
  subst hx'
  exact ⟨r, hr, hp, ⟨entry, hbase ▸ hentry, hname⟩, ((h.rows a r hr).passing hpass).1⟩

/-! ## What survives a step -/

/-- The database grows, and rows with a passing document change softly at most. -/
structure Ext (s s' : State) : Prop where
  next_le : s.next ≤ s'.next
  evals : ∀ e ∈ s.evals, e ∈ s'.evals
  projects : ∀ p x, s.projects p = some x → s'.projects p = some x
  rows : ∀ a r', a < s.next → s'.adapters a = some r' →
    ∃ r, s.adapters a = some r ∧ (Passing r → Soft r r')

/-- All rows change softly at most. -/
structure SoftExt (s s' : State) : Prop extends Ext s s' where
  soft : ∀ a r', a < s.next → s'.adapters a = some r' → ∃ r, s.adapters a = some r ∧ Soft r r'

/-- A step that leaves projects, evaluations and the row count alone. -/
theorem SoftExt.of_rows (hr : SoftRows s.adapters s'.adapters) (hn : s'.next = s.next)
    (he : s'.evals = s.evals) (hp : s'.projects = s.projects) : SoftExt s s' := by
  have hsoft : ∀ a r', a < s.next → s'.adapters a = some r' →
      ∃ r, s.adapters a = some r ∧ Soft r r' := by
    intro a r' _ hr'
    cases h : s.adapters a with
    | none =>
        rw [(hr a).1.mp h] at hr'
        cases hr'
    | some r => exact ⟨r, rfl, (hr a).2 r r' h hr'⟩
  refine ⟨⟨Nat.le_of_eq hn.symm, fun e h ↦ he ▸ h, fun p x h ↦ hp ▸ h, ?_⟩, hsoft⟩
  intro a r' ha hr'
  obtain ⟨r, h, hs⟩ := hsoft a r' ha hr'
  exact ⟨r, h, fun _ ↦ hs⟩

theorem HasBase.ext {p : ProjectId} {base : String} (hx : Ext s s') (h : HasBase s p base) :
    HasBase s' p base := by
  obtain ⟨x, hp, hb⟩ := h
  exact ⟨x, hx.projects p x hp, hb⟩

theorem RowOk.ext (hx : Ext s s') (hs : Soft r r') (h : RowOk c s a r) : RowOk c s' a r' where
  lt := Nat.lt_of_lt_of_le h.lt hx.next_le
  base := by
    obtain ⟨x, entry, hp, hentry, hname⟩ := h.base
    rw [hs.project, hs.baseModel]
    exact ⟨x, entry, hx.projects _ _ hp, hentry, hname⟩
  gguf hf := by
    obtain ⟨g, hg⟩ := h.gguf (hs.format ▸ hf)
    exact ⟨g, by rw [hs.ggufPath]; exact hg⟩
  passed hst := by
    rcases hs.status with he | he
    · exact hs.passing_iff.mpr (h.passed (he ▸ hst))
    · rw [he] at hst
      cases hst
  passing hpass := by
    obtain ⟨hg, hst⟩ := h.passing (hs.passing_iff.mp hpass)
    refine ⟨hs.gated hx.evals hg, ?_⟩
    rcases hs.status with he | he
    · rw [he]
      exact hst
    · exact .inr he

theorem Held.ext (hx : SoftExt s s') (h : Held c s a o) : Held c s' a o where
  lt := Nat.lt_of_lt_of_le h.lt hx.next_le
  name := h.name
  gguf := h.gguf
  saved := h.saved
  sync r' hr' := by
    obtain ⟨r, hr, hs⟩ := hx.soft a r' h.lt hr'
    rw [hs.baseModel, hs.format, hs.ggufPath, hs.evalMetrics, hs.passing_iff]
    exact h.sync r hr

theorem JobOk.ext (hx : SoftExt s s') {pc : JobPc} (h : JobOk c s a pc) : JobOk c s' a pc := by
  cases pc with
  | load => trivial
  | startCommit | dataset | convert | ggufCommit | probe | readRows | score =>
      exact ⟨h.1.ext hx, h.2⟩
  | endCommit o =>
      refine ⟨h.1.ext hx, h.2.passed, ?_⟩
      intro hp
      obtain ⟨hg, hst⟩ := h.2.passing hp
      exact ⟨(Soft.refl o.now).gated hx.evals hg, hst⟩

theorem JobOk.jobAt {pc : JobPc} {w : Option JobPc} (h : JobOk c s a pc) :
    JobOk c (s.jobAt b w) a pc := by
  have hx : SoftExt s (s.jobAt b w) := .of_rows (.refl s.adapters) rfl rfl rfl
  exact h.ext hx

theorem Bindable.ext {p : ProjectId} (hx : Ext s s') (h : Bindable s p a) : Bindable s' p a := by
  refine ⟨Nat.lt_of_lt_of_le h.1 hx.next_le, ?_⟩
  intro r' hr'
  obtain ⟨r, hr, hs⟩ := hx.rows a r' h.1 hr'
  obtain ⟨hp, hpass⟩ := h.2 r hr
  have hs := hs hpass
  exact ⟨hs.project.trans hp, hs.passing_iff.mpr hpass⟩

theorem ReqOk.ext (hx : Ext s s') {q : Req} (h : ReqOk s q) : ReqOk s' q := by
  cases q with
  | absent | refreshing | deleting | ended => trivial
  | enqueuing | failing => exact h
  | uploading => exact HasBase.ext hx h
  | creating => exact ⟨h.1.ext hx, fun b hb ↦ (h.2 b hb).ext hx⟩
  | promoting => exact Bindable.ext hx h

/-- An endpoint stays sound while its adapter exists. -/
theorem EndpointOk.ext (hx : Ext s s') {p : ProjectId} {e : Endpoint}
    (hrow : ∀ a r, s.adapters a = some r → RowOk c s a r)
    (hkeep : ∀ a, e.adapterId = some a → s'.adapters a ≠ none) (h : EndpointOk s p e) :
    EndpointOk s' p e where
  base := h.base.ext hx
  bound a ha := by
    obtain ⟨r, hr, hp, hpass⟩ := h.bound a ha
    obtain ⟨r', hr'⟩ := Option.ne_none_iff_exists'.mp (hkeep a ha)
    obtain ⟨r₀, hr₀, hs⟩ := hx.rows a r' (hrow a r hr).lt hr'
    cases hr.symm.trans hr₀
    have hs := hs hpass
    exact ⟨r', hr', hs.project.trans hp, hs.passing_iff.mpr hpass⟩

namespace Inv

/-- Assembles the invariant after a step that writes rows softly at most. -/
theorem ext (h : Inv c s) (hx : SoftExt s s')
    (hnew : ∀ a r, s.next ≤ a → s'.adapters a = some r → RowOk c s' a r)
    (hw : ∀ a pc, s'.worker = some (a, pc) → s.worker = some (a, pc) ∨ JobOk c s' a pc)
    (hsw : ∀ l ∈ s'.sweeps, l ∈ s.sweeps ∨ ∀ x ∈ l, Quiet x.2)
    (hq : ∀ i, s'.reqs i = s.reqs i ∨ ReqOk s' (s'.reqs i))
    (he : ∀ p e, s'.endpoints.lookup p = some e →
      (s.endpoints.lookup p = some e ∧ ∀ a, e.adapterId = some a → s'.adapters a ≠ none) ∨
        EndpointOk s' p e) : Inv c s' where
  rows a r' hr' := by
    by_cases ha : s.next ≤ a
    · exact hnew a r' ha hr'
    · obtain ⟨r, hr, hs⟩ := hx.soft a r' (Nat.lt_of_not_le ha) hr'
      exact (h.rows a r hr).ext hx.toExt hs
  worker a pc hpc := by
    rcases hw a pc hpc with hpc | hpc
    · exact (h.worker a pc hpc).ext hx
    · exact hpc
  sweeps l hl := by
    rcases hsw l hl with hl | hl
    · exact h.sweeps l hl
    · exact hl
  reqs i := by
    rcases hq i with hi | hi
    · rw [hi]
      exact (h.reqs i).ext hx.toExt
    · exact hi
  endpoints p e hpe := by
    rcases he p e hpe with ⟨hpe, hkeep⟩ | hpe
    · exact (h.endpoints p e hpe).ext hx.toExt h.rows hkeep
    · exact hpe

/-- No row is at an unused id. -/
theorem no_row (h : Inv c s) (ha : s.next ≤ a) : s.adapters a = none := by
  cases hr : s.adapters a with
  | none => rfl
  | some r => exact absurd (h.rows a r hr).lt (Nat.not_lt_of_le ha)

/-- The adapter of an endpoint exists. -/
theorem bound_ne_none (h : Inv c s) {p : ProjectId} {e : Endpoint}
    (he : s.endpoints.lookup p = some e) (ha : e.adapterId = some a) : s.adapters a ≠ none := by
  obtain ⟨r, hr, -⟩ := (h.endpoints p e he).bound a ha
  simp [hr]

/-- A step that leaves adapters and endpoints alone. -/
theorem frame (h : Inv c s) (ha : s'.adapters = s.adapters) (hend : s'.endpoints = s.endpoints)
    (hn : s'.next = s.next) (hv : ∀ e ∈ s.evals, e ∈ s'.evals)
    (hp : ∀ p x, s.projects p = some x → s'.projects p = some x)
    (hw : ∀ a pc, s'.worker = some (a, pc) → s.worker = some (a, pc) ∨ JobOk c s' a pc)
    (hsw : ∀ l ∈ s'.sweeps, l ∈ s.sweeps ∨ ∀ x ∈ l, Quiet x.2)
    (hq : ∀ i, s'.reqs i = s.reqs i ∨ ReqOk s' (s'.reqs i)) : Inv c s' := by
  have hsoft : ∀ a r', a < s.next → s'.adapters a = some r' →
      ∃ r, s.adapters a = some r ∧ Soft r r' :=
    fun a r' _ hr' ↦ ⟨r', ha ▸ hr', .refl r'⟩
  have hx : SoftExt s s' :=
    ⟨⟨Nat.le_of_eq hn.symm, hv, hp, fun a r' hlt hr' ↦
      (hsoft a r' hlt hr').imp fun _ hr ↦ ⟨hr.1, fun _ ↦ hr.2⟩⟩, hsoft⟩
  refine h.ext hx ?_ hw hsw hq fun p e he ↦ .inl ?_
  · intro a r hge hr
    rw [ha, h.no_row hge] at hr
    cases hr
  · rw [hend] at he
    exact ⟨he, fun a hea ↦ ha ▸ h.bound_ne_none he hea⟩

/-- A step of one request that leaves the database alone. -/
theorem setReq (h : Inv c s) {i : ReqId} {q : Req} (hq : ReqOk s q) : Inv c (s.setReq i q) := by
  refine h.frame rfl rfl rfl (fun _ he ↦ he) (fun _ _ hp ↦ hp) (fun _ _ hw ↦ .inl hw)
    (fun _ hl ↦ .inl hl) ?_
  intro j
  by_cases hj : j = i
  · subst hj
    right
    rw [State.setReq]
    simp only [Function.update_self]
    cases q <;> exact hq
  · left
    simp [State.setReq, hj]

theorem setJobs (h : Inv c s) (jobs : List AdapterId) : Inv c { s with jobs := jobs } :=
  h.frame rfl rfl rfl (fun _ he ↦ he) (fun _ _ hp ↦ hp) (fun _ _ hw ↦ .inl hw)
    (fun _ hl ↦ .inl hl) fun _ ↦ .inl rfl

/-- A move of the worker that leaves the database alone. -/
theorem jobAt (h : Inv c s) {pc : Option JobPc} {evals : List Eval}
    (hv : ∀ e ∈ s.evals, e ∈ evals)
    (hpc : ∀ p, pc = some p → JobOk c { s with evals := evals } a p) :
    Inv c ({ s with evals := evals }.jobAt a pc) := by
  refine h.frame rfl rfl rfl hv (fun _ _ hp ↦ hp) (fun b p hb ↦ .inr ?_)
    (fun _ hl ↦ .inl hl) (fun _ ↦ .inl rfl)
  obtain ⟨p', hp', he⟩ := Option.map_eq_some_iff.mp hb
  cases he
  exact (hpc p hp').jobAt

end Inv

/-! ## The commits of the job -/

/-- A flush changes no row, or the one row it is for. -/
theorem writeRow_cases {rows rows' : Rows} (h : writeRow rows a o = some rows') :
    (rows a = none ∧ rows' = rows) ∨
      ∃ cur, rows a = some cur ∧ rows' = Function.update rows a (some (cur.flush o)) := by
  rw [writeRow] at h
  split at h
  · next heq =>
      cases h
      cases hcur : rows a with
      | none => exact .inl ⟨rfl, rfl⟩
      | some cur =>
          refine .inr ⟨cur, rfl, ?_⟩
          have hsame : cur.flush o = cur := by simp [Adapter.flush, heq]
          rw [hsame, ← hcur, Function.update_eq_self]
  · obtain ⟨cur, hcur, rfl⟩ := Option.map_eq_some_iff.mp h
    exact .inr ⟨cur, hcur, rfl⟩

/-- The flush of `o` into the row of `a` was executed, or it was not. -/
def MayWrite (s : State) (a : AdapterId) (o : Tracked Adapter) (rows : Rows) : Prop :=
  rows = s.adapters ∨
    ∃ cur, s.adapters a = some cur ∧ rows = Function.update s.adapters a (some (cur.flush o))

theorem mayWrite_of_writeRow {rows : Rows} (h : writeRow s.adapters a o = some rows) :
    MayWrite s a o rows := by
  rcases writeRow_cases h with ⟨-, he⟩ | hcur
  · exact .inl he
  · exact .inr hcur

theorem mayWrite_flushing {pc : JobPc} (h : pc.flushing = some o) (applied : Bool) :
    MayWrite s a o (s.mayWrite a pc applied) := by
  simp only [State.mayWrite, h]
  cases applied with
  | false => exact .inl rfl
  | true =>
      show MayWrite s a o ((writeRow s.adapters a o).getD s.adapters)
      cases hw : writeRow s.adapters a o with
      | none => exact .inl rfl
      | some rows => exact mayWrite_of_writeRow hw

theorem mayWrite_of_not_flushing {pc : JobPc} (h : pc.flushing = none) (applied : Bool) :
    s.mayWrite a pc applied = s.adapters := by
  simp only [State.mayWrite, h]

namespace Held

/-- A flush of the job writes its own view of the path and the document. -/
theorem flush_cols (h : Held c s a o) (hr : s.adapters a = some r) :
    (r.flush o).ggufPath = o.now.ggufPath ∧ (r.flush o).evalMetrics = o.now.evalMetrics := by
  obtain ⟨-, -, hg, hm, -⟩ := h.sync r hr
  constructor
  · rcases hg with hg | hg <;> simp [Adapter.flush, hg]
  · simp [Adapter.flush, hm]

/-- A document without a verdict stays one when it is flushed. -/
theorem flush_sync (h : Held c s a o) (ho : Open o) (hr : s.adapters a = some r) :
    (r.flush o).baseModel = o.now.baseModel ∧ (r.flush o).format = o.now.format ∧
      (r.flush o).ggufPath = o.now.ggufPath ∧ (r.flush o).evalMetrics = o.now.evalMetrics ∧
      ¬Passing (r.flush o) := by
  obtain ⟨hb, hf, -⟩ := h.sync r hr
  obtain ⟨hg, hm⟩ := h.flush_cols hr
  refine ⟨hb, hf, hg, hm, ?_⟩
  rw [Passing, hm]
  exact ho.passing

theorem committed (h : Held c s a o) (ho : Open o) {rows : Rows}
    (hw : writeRow s.adapters a o = some rows) :
    Held c { s with adapters := rows } a o.committed where
  lt := h.lt
  name := h.name
  gguf := h.gguf
  saved := ho.status
  sync r hr := by
    rcases writeRow_cases hw with ⟨hnone, rfl⟩ | ⟨cur, hcur, rfl⟩
    · exact absurd (hnone.symm.trans hr) (by simp)
    · simp only [Function.update_self] at hr
      cases hr
      obtain ⟨hb, hf, hg, hm, hp⟩ := h.flush_sync ho hcur
      exact ⟨hb, hf, .inl hg, hm, hp⟩

theorem mayWrite (h : Held c s a o) (ho : Open o) {rows : Rows} (hw : MayWrite s a o rows) :
    Held c { s with adapters := rows } a o where
  lt := h.lt
  name := h.name
  gguf := h.gguf
  saved := h.saved
  sync r hr := by
    rcases hw with rfl | ⟨cur, hcur, rfl⟩
    · exact h.sync r hr
    · simp only [Function.update_self] at hr
      cases hr
      obtain ⟨hb, hf, hg, hm, hp⟩ := h.flush_sync ho hcur
      exact ⟨hb, hf, .inr hg, hm.trans ho.evalMetrics, hp⟩

/-- The row after the flush of a verdict. -/
theorem rowOk_flush (h : Held c s a o) (hv : Verdict s.evals o.now) (hr : s.adapters a = some r)
    (hok : RowOk c s a r) : RowOk c s a (r.flush o) := by
  obtain ⟨hb, hf, -, -, hnp⟩ := h.sync r hr
  obtain ⟨hg, hm⟩ := h.flush_cols hr
  have hpass : Passing (r.flush o) ↔ Passing o.now := by rw [Passing, Passing, hm]
  have hst := flushField_eq_or o.saved.status o.now.status r.status
  refine ⟨hok.lt, hok.base, ?_, ?_, ?_⟩
  · intro hfmt
    obtain ⟨g, hg'⟩ := h.gguf (hf ▸ hfmt)
    exact ⟨g, by rw [hg]; exact hg'⟩
  · intro hs
    rw [hpass]
    rcases hst with he | ⟨-, he⟩
    · exact hv.passed (he.symm.trans hs)
    · -- the flush has kept the status of a row that has no passing document
      exact absurd (hok.passed (he.symm.trans hs)) hnp
  · intro hp
    obtain ⟨hgated, hnow⟩ := hv.passing (hpass.mp hp)
    refine ⟨⟨?_, hp, ?_⟩, .inl ?_⟩
    · rw [HasGguf, hg]
      exact hgated.gguf
    · intro g m hg' hm'
      have hbase : (r.flush o).baseModel = o.now.baseModel := hb
      rw [hbase]
      exact hgated.evaluated g m (hg ▸ hg') (hm ▸ hm')
    · have hne : o.now.status ≠ o.saved.status := fun he ↦ h.saved (he.symm.trans hnow)
      exact (flushField_of_ne hne r.status).trans hnow

end Held

/-- A commit of the job keeps the invariant, if where it goes on is right. -/
theorem Inv.jobWrite (h : Inv c s) (ha : Held c s a o) (hv : Verdict s.evals o.now) {rows : Rows}
    (hw : MayWrite s a o rows) {pc : Option JobPc}
    (hpc : ∀ p, pc = some p → JobOk c { s with adapters := rows } a p) :
    Inv c ({ s with adapters := rows }.jobAt a pc) := by
  rcases hw with rfl | ⟨cur, hcur, hrows⟩
  · exact h.jobAt (fun _ he ↦ he) hpc
  · have hself : rows a = some (cur.flush o) := by rw [hrows, Function.update_self]
    have hne : ∀ b, b ≠ a → rows b = s.adapters b := by
      intro b hb
      rw [hrows, Function.update_of_ne hb]
    have hx : Ext s ({ s with adapters := rows }.jobAt a pc) := by
      refine ⟨Nat.le_refl _, fun _ he ↦ he, fun _ _ hp ↦ hp, ?_⟩
      intro b r' _ hr'
      by_cases hb : b = a
      · subst hb
        exact ⟨cur, hcur, fun hp ↦ absurd hp (ha.sync cur hcur).2.2.2.2⟩
      · exact ⟨r', (hne b hb).symm.trans hr', fun _ ↦ .refl r'⟩
    refine ⟨?_, ?_, h.sweeps, fun i ↦ (h.reqs i).ext hx, ?_⟩
    · intro b r' hr'
      by_cases hb : b = a
      · subst hb
        cases hself.symm.trans hr'
        exact (ha.rowOk_flush hv hcur (h.rows b cur hcur)).ext hx (.refl _)
      · exact (h.rows b r' ((hne b hb).symm.trans hr')).ext hx (.refl _)
    · intro b p hb
      obtain ⟨p', hp', he⟩ := Option.map_eq_some_iff.mp hb
      cases he
      exact (hpc p hp').jobAt
    · intro p e he
      apply (h.endpoints p e he).ext hx h.rows
      intro b hb
      show rows b ≠ none
      by_cases hba : b = a
      · subst hba
        simp [hself]
      · rw [hne b hba]
        exact h.bound_ne_none he hb

/-! ## The steps of the job -/

theorem joinPath_ne_empty (dir name : String) : joinPath dir name ≠ "" := by
  rw [joinPath]
  split_ifs with hn hd hd
  · decide
  · exact hd
  · exact hn
  · intro h
    rw [String.append_eq_empty_iff, String.append_eq_empty_iff] at h
    exact hn h.2

/-- Assignments that leave the path alone keep the session in step. -/
theorem Held.assign (h : Held c s a o) {f : Adapter → Adapter}
    (hb : (f o.now).baseModel = o.now.baseModel) (hf : (f o.now).format = o.now.format)
    (hg : (f o.now).ggufPath = o.now.ggufPath) : Held c s a (o.assign f) where
  lt := h.lt
  name := by
    show ∃ entry, resolve c.catalog (f o.now).baseModel = some entry ∧
      entry.name = (f o.now).baseModel
    rw [hb]
    exact h.name
  gguf hfmt := by
    show HasGguf (f o.now)
    rw [HasGguf, hg]
    exact h.gguf (hf.symm.trans hfmt)
  saved := h.saved
  sync r hr := by
    show r.baseModel = (f o.now).baseModel ∧ r.format = (f o.now).format ∧
      (r.ggufPath = o.saved.ggufPath ∨ r.ggufPath = (f o.now).ggufPath) ∧ _
    rw [hb, hf, hg]
    exact h.sync r hr

/-- The job may commit a failure at any time before its verdict. -/
theorem jobOk_failed (h : Held c s a o) (ho : Open o) (message : Option String) :
    JobOk c s a (.failed o message) := by
  refine ⟨h.assign rfl rfl rfl, ?_, fun hp ↦ absurd ?_ ho.passing⟩
  · rintro ⟨⟩
  · simpa [Passing, Tracked.assign, failWith] using hp

theorem JobOk.afterRaise {pc p : JobPc} (h : JobOk c s a pc) {message : Option String}
    (hp : pc.afterRaise message = some p) : JobOk c s a p := by
  cases pc with
  | load | startCommit | endCommit => cases hp
  | dataset | convert | ggufCommit | probe | readRows | score =>
      cases hp
      exact jobOk_failed h.1 h.2.1 message

/-- A row that is neither `passed` nor `failed` has no passing document. -/
theorem jobOk_loaded (hr : s.adapters a = some r) (hok : RowOk c s a r)
    (hst : ¬(r.status = .passed ∨ r.status = .failed)) :
    JobOk c s a (.startCommit ((Tracked.load r).assign fun r ↦
      { r with status := .processing, failureReason := none })) := by
  have hnp : ¬Passing r := fun hp ↦ hst (hok.passing hp).2
  refine ⟨⟨hok.lt, ?_, hok.gguf, fun hs ↦ hst (.inl hs), ?_⟩, ⟨hnp, ?_, rfl⟩, rfl⟩
  · obtain ⟨x, entry, -, hentry, hname⟩ := hok.base
    show ∃ e, resolve c.catalog r.baseModel = some e ∧ e.name = r.baseModel
    rw [hname]
    exact resolve_name hentry
  · intro r' hr'
    cases hr.symm.trans hr'
    exact ⟨rfl, rfl, .inl rfl, rfl, hnp⟩
  · rintro ⟨⟩

theorem jobOk_afterDataset (h : Held c s a o) (ho : Open o) (hp : Plain o) (d : Option Dataset) :
    JobOk c s a (afterDataset c o d) := by
  obtain ⟨entry, hentry, hname⟩ := h.name
  rw [afterDataset, hentry]
  cases d.bind Dataset.task with
  | none => exact jobOk_failed h ho _
  | some task =>
      cases task with
      | freeform => exact jobOk_failed h ho _
      | classify =>
          cases hf : o.now.format with
          | peft => exact ⟨h, ho, hp, hname, .inl rfl⟩
          | gguf => exact ⟨h, ho, ⟨hname, .inl rfl⟩, h.gguf hf⟩
      | extract =>
          cases hf : o.now.format with
          | peft => exact ⟨h, ho, hp, hname, .inr rfl⟩
          | gguf => exact ⟨h, ho, ⟨hname, .inr rfl⟩, h.gguf hf⟩

theorem jobOk_converted {base : String} {task : EvalTask} (h : Held c s a o) (ho : Open o)
    (hp : Plain o) (hk : Checked o base task) :
    JobOk c s a (.ggufCommit (o.assign (setGguf c)) base task) := by
  have hg : HasGguf (setGguf c o.now) := ⟨_, rfl, joinPath_ne_empty _ _⟩
  refine ⟨⟨h.lt, h.name, fun _ ↦ hg, h.saved, ?_⟩, ⟨ho.passing, ho.status, ho.evalMetrics⟩, hk, hg⟩
  intro r hr
  obtain ⟨hb, hf, hpath, hrest⟩ := h.sync r hr
  refine ⟨hb, hf, .inl ?_, hrest⟩
  rcases hpath with hpath | hpath
  · exact hpath
  · exact hpath.trans hp

/-- A verdict is only passing if `evaluate` has just said so, for the base and the path of
the row. -/
theorem jobOk_scored {base : String} {task : EvalTask} {n : Nat} (x y : Rat)
    (h : Held c s a o) (hk : Checked o base task) (hg : HasGguf o.now) :
    let m := evaluate c.thresholds n x y task
    JobOk c { s with evals := ⟨base, o.now.ggufPath.getD "", m⟩ :: s.evals } a
      (.endCommit (o.assign (verdict c m))) := by
  intro m
  have hheld : Held c { s with evals := ⟨base, o.now.ggufPath.getD "", m⟩ :: s.evals } a o :=
    ⟨h.lt, h.name, h.gguf, h.saved, h.sync⟩
  cases hm : m.passed with
  | true =>
      have hv : verdict c m = fun r ↦ { r with evalMetrics := some m, status := .passed } := by
        funext r
        rw [verdict, if_pos hm]
      rw [hv]
      refine ⟨hheld.assign rfl rfl rfl, fun _ ↦ ⟨m, rfl, hm⟩, fun hp ↦ ⟨⟨hg, hp, ?_⟩, rfl⟩⟩
      rintro g m' hg' ⟨⟩
      have hg'' : o.now.ggufPath = some g := hg'
      rw [hg'', hk.1]
      exact ⟨List.mem_cons_self, hk.2⟩
  | false =>
      have hv : verdict c m =
          fun r ↦ failWith (c.gateFailed m) (some m) { r with evalMetrics := some m } := by
        funext r
        rw [verdict, if_neg (by simp [hm])]
      rw [hv]
      refine ⟨hheld.assign rfl rfl rfl, ?_, ?_⟩
      · rintro ⟨⟩
      · rintro ⟨m', ⟨⟩, hm'⟩
        rw [hm] at hm'
        cases hm'

/-- What is known at a commit of the job. -/
theorem JobOk.flushing {pc : JobPc} (h : JobOk c s a pc) (ho : pc.flushing = some o) :
    Held c s a o ∧ Verdict s.evals o.now := by
  cases pc with
  | load | dataset | convert | probe | readRows | score => cases ho
  | startCommit | ggufCommit =>
      cases ho
      exact ⟨h.1, h.2.1.verdict s.evals⟩
  | endCommit =>
      cases ho
      exact h

theorem JobOk.afterCommit {pc p : JobPc} (h : JobOk c s a pc) (ho : pc.flushing = some o)
    {rows : Rows} (hw : writeRow s.adapters a o = some rows) (hp : pc.afterCommit = some p) :
    JobOk c { s with adapters := rows } a p := by
  cases pc with
  | load | dataset | convert | probe | readRows | score | endCommit => cases hp
  | startCommit =>
      cases ho
      cases hp
      exact ⟨h.1.committed h.2.1 hw, ⟨h.2.1.passing, h.2.1.status, rfl⟩, rfl⟩
  | ggufCommit =>
      cases ho
      cases hp
      exact ⟨h.1.committed h.2.1 hw, ⟨h.2.1.passing, h.2.1.status, rfl⟩, h.2.2⟩

/-- Every event of the job keeps the invariant. -/
theorem Inv.job (h : Inv c s) {pc : JobPc} (hpc : JobOk c s a pc) {e : JobEv}
    (hn : JobStep c s a pc e s') : Inv c s' := by
  have hmove : ∀ w, (∀ p, w = some p → JobOk c s a p) → Inv c (s.jobAt a w) :=
    fun w hw ↦ h.jobAt (fun _ he ↦ he) hw
  have hto : ∀ p, JobOk c s a p → Inv c (s.jobAt a (some p)) := by
    intro p hp
    apply hmove _
    rintro _ ⟨⟩
    exact hp
  have hend : Inv c (s.jobAt a none) := hmove none (by rintro _ ⟨⟩)
  cases hn with
  | gone | settled => exact hend
  | loaded hr hst => exact hto _ (jobOk_loaded hr (h.rows a _ hr) hst)
  | commit ho hw =>
      obtain ⟨hheld, hv⟩ := hpc.flushing ho
      exact h.jobWrite hheld hv (mayWrite_of_writeRow hw) fun p hp ↦ hpc.afterCommit ho hw hp
  | stale => exact hmove _ fun p hp ↦ hpc.afterRaise hp
  | @commitError _ o applied ho =>
      obtain ⟨hheld, hv⟩ := hpc.flushing ho
      have hw : MayWrite s a o (s.mayWrite a pc applied) := mayWrite_flushing ho applied
      apply h.jobWrite hheld hv hw
      intro p hp
      -- only the commit of the path goes on after an exception
      cases pc <;> cases ho <;> cases hp
      exact jobOk_failed (hheld.mayWrite hpc.2.1 hw) hpc.2.1 none
  | datasetRead => exact hto _ (jobOk_afterDataset hpc.1 hpc.2.1 hpc.2.2 _)
  | converted => exact hto _ (jobOk_converted hpc.1 hpc.2.1 hpc.2.2.1 hpc.2.2.2)
  | probed => exact hto _ hpc
  | rowsRead => exact hto _ hpc
  | @scored _ _ _ _ x y =>
      apply h.jobAt (fun _ he ↦ List.mem_cons_of_mem _ he)
      rintro _ ⟨⟩
      exact jobOk_scored x y hpc.1 hpc.2.2.1 hpc.2.2.2
  | raised => exact hmove _ fun p hp ↦ hpc.afterRaise hp
  | @cancel _ applied =>
      cases ho : pc.flushing with
      | none =>
          rw [mayWrite_of_not_flushing ho]
          exact hend
      | some o =>
          obtain ⟨hheld, hv⟩ := hpc.flushing ho
          exact h.jobWrite hheld hv (mayWrite_flushing ho applied) (by rintro _ ⟨⟩)

/-! ## The other steps -/

theorem quiet_of_mem_stuck {x : AdapterId × Tracked Adapter} (h : x ∈ s.stuck) : Quiet x.2 := by
  obtain ⟨b, -, hb⟩ := List.mem_filterMap.mp h
  obtain ⟨r, -, hr⟩ := Option.bind_eq_some_iff.mp hb
  split at hr
  · cases hr
    exact ⟨rfl, rfl, rfl⟩
  · cases hr

/-- A flush that changes rows softly at most. -/
theorem Inv.softWrite (h : Inv c s) {rows : Rows} (hr : SoftRows s.adapters rows) :
    Inv c { s with adapters := rows } := by
  have hx : SoftExt s { s with adapters := rows } := .of_rows hr rfl rfl rfl
  refine h.ext hx ?_ (fun _ _ hw ↦ .inl hw) (fun _ hl ↦ .inl hl)
    (fun _ ↦ .inl rfl) fun p e he ↦ .inl ⟨he, ?_⟩
  · intro a r hge hrow
    cases ((hr a).1.mp (h.no_row hge)).symm.trans hrow
  · intro a hea
    exact fun hnone ↦ h.bound_ne_none he hea ((hr a).1.mpr hnone)

/-- The row of an accepted upload. -/
theorem rowOk_stored {p : ProjectId} {base : String} {f : AdapterFormat} {d : DatasetId}
    {entry : CatalogEntry} (hb : HasBase s p base) (hentry : resolve c.catalog base = some entry)
    (ha : a < s.next) : RowOk c s a (c.stored a p entry.name f d) := by
  obtain ⟨x, hx, hbase⟩ := hb
  refine ⟨ha, ⟨x, entry, hx, hbase ▸ hentry, rfl⟩, ?_, ?_, ?_⟩
  · rintro ⟨⟩
    exact ⟨_, rfl, joinPath_ne_empty _ _⟩
  · rintro ⟨⟩
  · rintro ⟨m, ⟨⟩, -⟩

theorem Inv.uploadInsert (h : Inv c s) (hok : RowOk c { s with next := s.next + 1 } s.next r) :
    Inv c { s with adapters := Function.update s.adapters s.next (some r), next := s.next + 1 } := by
  have hlt : ∀ a, a < s.next → Function.update s.adapters s.next (some r) a = s.adapters a :=
    fun a ha ↦ Function.update_of_ne (Nat.ne_of_lt ha) _ _
  have hsoft : ∀ a r', a < s.next → Function.update s.adapters s.next (some r) a = some r' →
      ∃ r, s.adapters a = some r ∧ Soft r r' :=
    fun a r' ha hr' ↦ ⟨r', (hlt a ha).symm.trans hr', .refl r'⟩
  have hx : SoftExt s { s with
      adapters := Function.update s.adapters s.next (some r), next := s.next + 1 } :=
    ⟨⟨Nat.le_succ _, fun _ he ↦ he, fun _ _ hp ↦ hp, fun a r' ha hr' ↦
      (hsoft a r' ha hr').imp fun _ hr ↦ ⟨hr.1, fun _ ↦ hr.2⟩⟩, hsoft⟩
  refine h.ext hx ?_ (fun _ _ hw ↦ .inl hw) (fun _ hl ↦ .inl hl)
    (fun _ ↦ .inl rfl) fun p e he ↦ .inl ⟨he, ?_⟩
  · intro a r' hge hr'
    by_cases ha : a = s.next
    · subst ha
      simp only [Function.update_self] at hr'
      cases hr'
      exact ⟨hok.lt, hok.base, hok.gguf, hok.passed, hok.passing⟩
    · simp only [Function.update_of_ne ha] at hr'
      rw [h.no_row hge] at hr'
      cases hr'
  · intro a hea
    obtain ⟨r₀, hr₀, -⟩ := (h.endpoints p e he).bound a hea
    show Function.update s.adapters s.next (some r) a ≠ none
    rw [hlt a (h.rows a r₀ hr₀).lt]
    exact h.bound_ne_none he hea

/-- The commit of a binding, or of an endpoint without one. -/
theorem Inv.bind (h : Inv c s) {p : ProjectId} {e : Endpoint} (he : EndpointOk s p e) :
    Inv c { s with endpoints := s.endpoints.insert p e } := by
  have hx : SoftExt s { s with endpoints := s.endpoints.insert p e } :=
    .of_rows (.refl s.adapters) rfl rfl rfl
  refine h.ext hx ?_ (fun _ _ hw ↦ .inl hw) (fun _ hl ↦ .inl hl) (fun _ ↦ .inl rfl) ?_
  · intro a r hge hr
    rw [h.no_row hge] at hr
    cases hr
  · intro q e' he'
    by_cases hq : q = p
    · subst hq
      rw [AList.lookup_insert] at he'
      cases he'
      exact .inr ⟨he.base, he.bound⟩
    · rw [AList.lookup_insert_ne hq] at he'
      exact .inl ⟨he', fun a ha ↦ h.bound_ne_none he' ha⟩

theorem bound_of_lookup {p : ProjectId} {e : Endpoint} (he : s.endpoints.lookup p = some e)
    (ha : e.adapterId = some a) : s.bound a = true := by
  rw [State.bound, List.any_eq_true]
  exact ⟨⟨p, e⟩, AList.mem_lookup_iff.mp he, by simpa using ha⟩

/-- The foreign key keeps a bound row. -/
theorem Inv.delete (h : Inv c s) (hb : ¬s.bound a) :
    Inv c { s with adapters := Function.update s.adapters a none } := by
  have hsub : ∀ b r', Function.update s.adapters a none b = some r' → s.adapters b = some r' := by
    intro b r' hr'
    by_cases hba : b = a
    · subst hba
      rw [Function.update_self] at hr'
      cases hr'
    · rwa [Function.update_of_ne hba] at hr'
  have hx : SoftExt s { s with adapters := Function.update s.adapters a none } :=
    ⟨⟨Nat.le_refl _, fun _ he ↦ he, fun _ _ hp ↦ hp, fun b r' _ hr' ↦
      ⟨r', hsub b r' hr', fun _ ↦ .refl r'⟩⟩, fun b r' _ hr' ↦ ⟨r', hsub b r' hr', .refl r'⟩⟩
  refine h.ext hx ?_ (fun _ _ hw ↦ .inl hw) (fun _ hl ↦ .inl hl)
    (fun _ ↦ .inl rfl) fun p e he ↦ .inl ⟨he, ?_⟩
  · intro b r hge hr
    cases (h.no_row hge).symm.trans (hsub b r hr)
  · intro b hbe
    have hba : b ≠ a := by
      rintro rfl
      exact hb (bound_of_lookup he hbe)
    simp only [Function.update_of_ne hba]
    exact h.bound_ne_none he hbe

/-- What a handler that reads a `passed` row may rely on until its commit. -/
theorem bindable_of_passed {p : ProjectId} (hok : RowOk c s a r) (hr : s.adapters a = some r)
    (hp : r.project = p) (hst : r.status = .passed) : Bindable s p a := by
  refine ⟨hok.lt, ?_⟩
  intro r' hr'
  cases hr.symm.trans hr'
  exact ⟨hp, hok.passed hst⟩

theorem Inv.init (c : Config) : Inv c State.init where
  rows := by rintro a r ⟨⟩
  worker := by rintro a pc ⟨⟩
  sweeps := by
    intro l hl
    cases hl
  reqs i := trivial
  endpoints p e he := by
    rw [State.init, AList.lookup_empty] at he
    cases he

theorem Inv.setSweeps (h : Inv c s) {l : List (List (AdapterId × Tracked Adapter))}
    (hl : ∀ y ∈ l, y ∈ s.sweeps ∨ ∀ x ∈ y, Quiet x.2) : Inv c { s with sweeps := l } :=
  h.frame rfl rfl rfl (fun _ he ↦ he) (fun _ _ hp ↦ hp) (fun _ _ hw ↦ .inl hw) hl fun _ ↦ .inl rfl

/-- Every step keeps the invariant. -/
theorem Inv.step {x : Act} (h : Inv c s) (hn : Adapters.step c s x = some s') : Inv c s' := by
  cases Step.of_step hn with
  | @project p _ hp =>
      refine h.frame rfl rfl rfl (fun _ he ↦ he) ?_ (fun _ _ hw ↦ .inl hw)
        (fun _ hl ↦ .inl hl) fun _ ↦ .inl rfl
      intro q y hq
      have hne : q ≠ p := by
        rintro rfl
        cases hp.symm.trans hq
      simpa [Function.update_of_ne hne] using hq
  | dataset =>
      exact h.frame rfl rfl rfl (fun _ he ↦ he) (fun _ _ hp ↦ hp) (fun _ _ hw ↦ .inl hw)
        (fun _ hl ↦ .inl hl) fun _ ↦ .inl rfl
  | @uploadRead _ _ _ _ x _ _ hx => exact h.setReq ⟨x, hx, rfl⟩
  | @uploadInsert i p base _ _ _ hi hentry =>
      have hb : HasBase s p base := by simpa [hi, ReqOk] using h.reqs i
      have hq : Inv c (s.setReq i (.refreshing s.next)) := h.setReq trivial
      exact hq.uploadInsert (rowOk_stored hb hentry (Nat.lt_succ_self _))
  | uploadRefresh => exact h.setReq rfl
  | @enqueue i =>
      have hq : Inv c (s.setReq i .ended) := h.setReq trivial
      exact hq.setJobs _
  | @enqueueError i a o _ hi =>
      have ho : o.now = o.saved := by simpa [hi, ReqOk] using h.reqs i
      have hquiet : Quiet (o.assign uploadFail) :=
        ⟨congrArg (·.ggufPath) ho, congrArg (·.evalMetrics) ho, rfl⟩
      have hq : Inv c (s.setReq i (.failing a (o.assign uploadFail))) := h.setReq hquiet
      exact hq.setJobs _
  | @uploadFail i _ o _ hi hw =>
      have ho : Quiet o := by simpa [hi, ReqOk] using h.reqs i
      have hq : Inv c (s.setReq i .ended) := h.setReq trivial
      exact hq.softWrite (softRows_of_writeRow ho hw)
  | @createPlain _ _ x _ hx => exact h.setReq ⟨⟨x, hx, rfl⟩, by rintro b ⟨⟩⟩
  | @createBound _ _ _ x r _ hx hr hok =>
      refine h.setReq ⟨⟨x, hx, rfl⟩, ?_⟩
      rintro _ ⟨⟩
      exact bindable_of_passed (h.rows _ r hr) hr hok.1 hok.2
  | @createCommit i p base b hi _ hb =>
      have hok : ReqOk s (.creating p base b) := hi ▸ h.reqs i
      have hq : Inv c (s.setReq i .ended) := h.setReq trivial
      refine hq.bind ⟨hok.1, ?_⟩
      rintro a rfl
      obtain ⟨r, hr⟩ := hb a rfl
      exact ⟨r, hr, (hok.2 a rfl).2 r hr⟩
  | @promoteRead _ _ a r _ hr hok =>
      exact h.setReq (bindable_of_passed (h.rows a r hr) hr hok.1 hok.2)
  | @promoteCommit i p a e r hi he hr =>
      have hok : ReqOk s (.promoting p a) := hi ▸ h.reqs i
      have hq : Inv c (s.setReq i .ended) := h.setReq trivial
      refine hq.bind ⟨(h.endpoints p e he).base, ?_⟩
      rintro b ⟨⟩
      exact ⟨r, hr, hok.2 r hr⟩
  | deleteRead | abandon => exact h.setReq trivial
  | @deleteCommit i _ _ hb =>
      have hq : Inv c (s.setReq i .ended) := h.setReq trivial
      exact hq.delete hb
  | sweepSelect =>
      apply h.setSweeps
      intro l hl
      rcases List.mem_cons.mp hl with rfl | hl
      · exact .inr fun x hx ↦ quiet_of_mem_stuck hx
      · exact .inl hl
  | @sweepCommit _ l rows hl hw =>
      have hq : Inv c { s with adapters := rows } :=
        h.softWrite (softRows_of_writeRows (h.sweeps l (List.mem_of_getElem? hl)) hw)
      exact hq.setSweeps fun _ hl ↦ .inl (List.mem_of_mem_eraseIdx hl)
  | sweepAbort => exact h.setSweeps fun _ hl ↦ .inl (List.mem_of_mem_eraseIdx hl)
  | take =>
      apply h.jobAt (fun _ he ↦ he)
      rintro p ⟨⟩
      trivial
  | job hw hn => exact h.job (h.worker _ _ hw) hn

theorem Inv.of_reachable (h : (system c).Reachable s) : Inv c s :=
  h.invariant (Inv.init c) fun _ _ _ hs _ hn ↦ hs.step hn

/-- **Eval-gate safety.**  In every interleaving of uploads, job runs with interruptions,
sweeps, endpoint creations, promotions and deletions, every bound adapter exists, belongs to
the endpoint's project and base, and has a GGUF and a passing document that `evaluate`
computed for them with a task that can gate. -/
theorem bindings_gated (c : Config) (s : State) (h : (system c).Reachable s) :
    BindingsGated c s := (Inv.of_reachable h).bindingsGated

/-- One base model, known by its name and by its repo id. -/
def oneBase : Config :=
  { catalog := [⟨"tiny", "org/tiny"⟩]
    thresholds := ⟨1 / 20, 9 / 10⟩
    adaptersDir := "data/adapters"
    loraGgufFilename := "adapter.gguf"
    gateFailed := fun _ ↦ "the gate failed" }

/-- A job is cancelled and run again; a sweep selects its row in the middle of the second
run and commits between the read and the commit of an endpoint creation. -/
def sweptRun : List Act :=
  [.project 0 ⟨.finetune, "org/tiny"⟩, .dataset 0 (some ⟨0, true, some .classify⟩),
    .uploadRead 0 0 0 .peft, .uploadInsert 0, .uploadRefresh 0, .enqueue 0,
    .take 0, .job .loaded, .job (.commit .ok), .job .datasetRead, .job (.cancel false),
    .take 0, .job .loaded, .job (.commit .ok), .job .datasetRead, .job .converted,
    .job (.commit .ok), .job .probed, .job (.rowsRead 20), .sweepSelect,
    .job (.scored (19 / 20) (1 / 2)), .job (.commit .ok),
    .createRead 1 0 (some 0), .sweepCommit 0, .createCommit 1]

/-- The hypothesis of `bindings_gated` is met by a run whose binding ends up on a row the
sweep has set to `failed`. -/
theorem bindings_gated_sweptRun : ∃ s, (system oneBase).Reachable s ∧
    s.endpoints.lookup 0 = some ⟨"org/tiny", some 0⟩ ∧
    (s.adapters 0).map Adapter.status = some .failed ∧ BindingsGated oneBase s := by
  obtain ⟨s, hs, hr⟩ := System.Reach.of_exec (S := system oneBase) (g := fun _ _ ↦ True)
    (l := sweptRun) (f := fun s ↦ (s.endpoints.lookup 0, (s.adapters 0).map Adapter.status))
    (b := (some ⟨"org/tiny", some 0⟩, some .failed)) (by with_unfolding_all decide)
  exact ⟨s, hs, congrArg Prod.fst hr, congrArg Prod.snd hr, bindings_gated oneBase s hs⟩

end Adapta.Adapters
