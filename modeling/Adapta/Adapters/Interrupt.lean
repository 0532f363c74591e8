import Adapta.Adapters.Safety

/-!
# Interrupted adapter jobs

A SIGTERM cancels `process_adapter` at its await, and the job is run again from its start.
What the first run has left, on disk and in the row, is what the second one starts from.

Here the job runs in a fixed `World`: the converter writes the same increments of
`adapter.gguf` each time and exits with the same code, and the model gives the same answers
on the same file.  `Site` adds the file and the converter processes to the rows of
`Adapta.Adapters.Life`; the steps of the job itself are those of `State.job`, with the event
the world determines.

`convert_peft_to_gguf` returns at once if the file is there, whoever wrote it and however
much of it.  `verdict_of_clean` shows that this is the only way to another verdict: if the
file is absent or complete whenever the job gets there, and no converter of an earlier run
is left, every run that ends, ends like the one that was not interrupted.
`halfWrittenRun` is a run in which a half-written file is taken for the adapter.
-/

namespace Adapta.Adapters.Interrupt

open Lib

universe u

variable {γ : Type u}

/-! ## The world -/

/-- What the outside does, the same each time.  The contents of a GGUF file are `γ`; an
exception is a `DomainError` with its message, or any other. -/
structure World (γ : Type u) where
  /-- The error of the checks before a conversion: no PEFT adapter, no converter, or no
  configuration of the base. -/
  checks : Option String
  /-- The contents of the file after each write of the converter. -/
  writes : List γ
  /-- The converter exits with 0. -/
  exitOk : Bool
  /-- The file of an adapter that was uploaded as GGUF. -/
  uploaded : γ
  probe : γ → Except (Option String) Unit
  /-- The number of eval rows. -/
  rows : Except (Option String) Nat
  /-- The scores of the adapter and of the base. -/
  score : γ → Except (Option String) (Rat × Rat)

/-- The rows, the file `adapter.gguf` of the adapter `a`, and its converters. -/
structure Site (γ : Type u) where
  life : State
  file : Option γ
  /-- The converter the job waits for, with the number of its writes. -/
  child : Option Nat
  /-- Converters of cancelled runs that are still running. -/
  orphans : List Nat

/-- One atomic step. -/
inductive Move where
  /-- The worker takes the job, for the first time or again. -/
  | take
  /-- The awaited call ends; at the conversion, its checks are made and the converter starts. -/
  | go
  /-- The converter writes, or exits. -/
  | write
  | exit
  /-- The worker is cancelled.  An awaited commit may have been executed, and the converter
  may survive. -/
  | cancel (applied survives : Bool)
  /-- A converter of a cancelled run writes, or exits. -/
  | orphan (n : Nat)
deriving DecidableEq

def conversionFailed : String := "Failed to convert the fine-tuned adapter for serving."

/-- The event of an exception or of a result. -/
def outcome {β : Type*} (x : Except (Option String) β) (f : β → JobEv) : JobEv :=
  match x with
  | .ok v => f v
  | .error message => .raised message

namespace Site

variable (c : Config) (w : World γ) (a : AdapterId) (x : Site γ)

/-- What the path of the row holds. -/
def content (r : Adapter) : Option γ :=
  match r.format with
  | .gguf => some w.uploaded
  | .peft => x.file

/-- The end of a call on the adapter's file; a missing one does not load. -/
def onFile {β : Type*} (r : Adapter) (call : γ → Except (Option String) β) (f : β → JobEv) : JobEv :=
  match x.content w r with
  | some g => outcome (call g) f
  | none => .raised none

/-- How the awaited call ends. -/
def reply : JobPc → JobEv
  | .load => .loaded
  | .startCommit _ | .ggufCommit _ _ _ | .endCommit _ => .commit .ok
  | .dataset _ => .datasetRead
  | .convert _ _ _ => .converted
  | .probe o _ _ => x.onFile w o.now w.probe fun _ ↦ .probed
  | .readRows _ _ _ => outcome w.rows .rowsRead
  | .score o _ _ _ => x.onFile w o.now w.score fun s ↦ .scored s.1 s.2

/-- The job goes on with an event. -/
def event (pc : JobPc) (e : JobEv) : Option (Site γ) :=
  (x.life.job c a pc e).map fun l ↦ { x with life := l }

/-- `convert_peft_to_gguf` up to its first await. -/
def convert (pc : JobPc) : Option (Site γ) :=
  match x.child, x.file, w.checks with
  | some _, _, _ => none
  | none, some _, _ => x.event c a pc .converted
  | none, none, some message => x.event c a pc (.raised (some message))
  | none, none, none => some { x with child := some 0 }

/-- The awaited call ends. -/
def go (pc : JobPc) : Option (Site γ) :=
  match pc with
  | .convert _ _ _ => x.convert c w a pc
  | _ => x.event c a pc (x.reply w pc)

/-- The converter ends. -/
def exit (pc : JobPc) : Option (Site γ) :=
  { x with child := none }.event c a pc
    (if w.exitOk ∧ x.file.isSome then .converted else .raised (some conversionFailed))

/-- One step. -/
def step : Move → Option (Site γ)
  | .take => (Adapters.step c x.life (.take a)).map fun l ↦ { x with life := l }
  | .go => x.life.worker.bind fun v ↦ x.go c w a v.2
  | .write =>
      match x.child with
      | some k => w.writes[k]?.map fun g ↦ { x with file := some g, child := some (k + 1) }
      | none => none
  | .exit =>
      match x.child, x.life.worker with
      | some k, some v => if k = w.writes.length then x.exit c w a v.2 else none
      | _, _ => none
  | .cancel applied survives => x.life.worker.bind fun v ↦
      { x with
        child := none
        orphans := if survives then x.child.toList ++ x.orphans else x.orphans }.event
          c a v.2 (.cancel applied)
  | .orphan n =>
      match x.orphans[n]? with
      | some k =>
          match w.writes[k]? with
          | some g => some { x with file := some g, orphans := x.orphans.set n (k + 1) }
          | none => some { x with orphans := x.orphans.eraseIdx n }
      | none => none

end Site

/-! ## The verdict -/

/-- What a conversion or an upload is meant to leave at the row's path. -/
def World.built (w : World γ) : AdapterFormat → Option γ
  | .gguf => some w.uploaded
  | .peft => if w.checks = none ∧ w.exitOk then w.writes.getLast? else none

/-- The rows after an upload: `a` is a new adapter, whose job is enqueued. -/
def uploadedAs (l : State) (a : AdapterId) (r : Adapter) : State :=
  { l with
    adapters := Function.update l.adapters a (some r)
    jobs := a :: l.jobs
    worker := none }

/-- The jobs of an uploaded adapter, in a given world. -/
def interrupted (c : Config) (w : World γ) (a : AdapterId) (r : Adapter) (l : State) :
    System (Site γ) Move :=
  ⟨{ life := uploadedAs l a r, file := none, child := none, orphans := [] },
    fun x m ↦ x.step c w a m⟩

/-- The status and the metrics of an adapter that is decided. -/
def Site.verdict (x : Site γ) (a : AdapterId) : Option (AdapterStatus × Option Metrics) :=
  (x.life.adapters a).bind fun r ↦
    if r.status = .passed ∨ r.status = .failed then some (r.status, r.evalMetrics) else none

/-- The run is not interrupted by the step. -/
def Uninterrupted (_ : Site γ) : Move → Prop
  | .cancel _ _ => False
  | _ => True

/-- When the job gets to the conversion, the file is absent or complete, and no converter of
an earlier run is left. -/
def Clean (w : World γ) (x : Site γ) (m : Move) : Prop :=
  match m, x.life.worker with
  | .go, some (_, .convert _ _ _) =>
      x.orphans = [] ∧ (x.file = none ∨ x.file = w.built .peft)
  | _, _ => True

/-! ## The invariant -/

section

variable (c : Config) (w : World γ) (a : AdapterId) (r₀ : Adapter) (ds : Option Dataset)

/-- The verdict of a run that is not interrupted. -/
def expected : AdapterStatus × Option Metrics :=
  match resolve c.catalog r₀.baseModel, ds.bind Dataset.task with
  | none, _ | some _, none | some _, some .freeform => (.failed, none)
  | some _, some task =>
      match w.built r₀.format with
      | none => (.failed, none)
      | some g =>
          match w.probe g, w.rows, w.score g with
          | .ok _, .ok n, .ok y =>
              let m := evaluate c.thresholds n y.1 y.2 task
              (if m.passed then .passed else .failed, some m)
          | _, _, _ => (.failed, none)

/-- The columns of the upload that the verdict depends on. -/
structure Like (r : Adapter) : Prop where
  base : r.baseModel = r₀.baseModel
  format : r.format = r₀.format
  dataset : r.evalDataset = r₀.evalDataset

/-- A row that is being processed. -/
structure Opened (r : Adapter) : Prop extends Like r₀ r where
  status : r.status = .processing
  metrics : r.evalMetrics = none

/-- The row is decided as expected, or not yet. -/
def RowOk (r : Adapter) : Prop :=
  Like r₀ r ∧ (((r.status = .uploaded ∨ r.status = .processing) ∧ r.evalMetrics = none) ∨
    (r.status, r.evalMetrics) = expected c w r₀ ds)

/-- The checks before the conversion have passed, with these values. -/
def Gated (base : String) (task : EvalTask) : Prop :=
  ∃ entry, resolve c.catalog r₀.baseModel = some entry ∧ entry.name = base ∧
    ds.bind Dataset.task = some task ∧ task ≠ .freeform

/-- The row's path holds what it is meant to, for good. -/
def Ready (x : Site γ) (g : γ) : Prop :=
  w.built r₀.format = some g ∧ (r₀.format = .peft → x.file = some g ∧ x.orphans = [])

/-- The session object is the row. -/
def Synced (x : Site γ) (o : Tracked Adapter) : Prop :=
  x.life.adapters a = some o.saved ∧ Opened r₀ o.saved

/-- What is known where the job is. -/
def Site.JobOk (x : Site γ) : JobPc → Prop
  | .load => True
  | .startCommit o => x.life.adapters a = some o.saved ∧ Like r₀ o.saved ∧
      o.saved.evalMetrics = none ∧ ¬(o.saved.status = .passed ∨ o.saved.status = .failed) ∧
      o.now = { o.saved with status := .processing, failureReason := none }
  | .dataset o => Synced a r₀ x o ∧ o.now = o.saved
  | .convert o base task => Synced a r₀ x o ∧ o.now = o.saved ∧ Gated c r₀ ds base task ∧
      r₀.format = .peft
  | .ggufCommit o base task => Synced a r₀ x o ∧ o.now = setGguf c o.saved ∧
      Gated c r₀ ds base task ∧ ∃ g, Ready w r₀ x g
  | .probe o base task => Synced a r₀ x o ∧ o.now = o.saved ∧ Gated c r₀ ds base task ∧
      ∃ g, Ready w r₀ x g
  | .readRows o base task => Synced a r₀ x o ∧ o.now = o.saved ∧ Gated c r₀ ds base task ∧
      ∃ g, Ready w r₀ x g ∧ w.probe g = .ok ()
  | .score o base task n => Synced a r₀ x o ∧ o.now = o.saved ∧ Gated c r₀ ds base task ∧
      w.rows = .ok n ∧ ∃ g, Ready w r₀ x g ∧ w.probe g = .ok ()
  | .endCommit o => Synced a r₀ x o ∧ Like r₀ o.now ∧
      (o.now.status, o.now.evalMetrics) = expected c w r₀ ds

/-- The converter the job waits for has written the file, and nobody else has. -/
def Site.ChildOk (x : Site γ) (k : Nat) : Prop :=
  (∃ o base task, x.life.worker = some (a, .convert o base task)) ∧ x.orphans = [] ∧
    w.checks = none ∧ k ≤ w.writes.length ∧ x.file = (w.writes.take k).getLast?

structure Site.Inv (x : Site γ) : Prop where
  jobs : a ∈ x.life.jobs
  data : x.life.datasets r₀.evalDataset = ds
  row : ∃ r, x.life.adapters a = some r ∧ RowOk c w r₀ ds r
  worker : ∀ a' pc, x.life.worker = some (a', pc) → a' = a ∧ x.JobOk c w a r₀ ds pc
  child : ∀ k, x.child = some k → x.ChildOk w a k

end

/-! ## Flushes -/

section

variable {c : Config} {w : World γ} {a : AdapterId} {r₀ r : Adapter} {ds : Option Dataset}
  {x x' : Site γ} {o : Tracked Adapter} {base : String} {task : EvalTask} {g : γ} {n : Nat}

/-- A commit of the row the session has read. -/
theorem writeRow_saved {rows : Rows} (h : rows a = some o.saved) :
    ∃ rows', writeRow rows a o = some rows' ∧ rows' a = some (o.saved.flush o) := by
  have hw : ∃ rows', writeRow rows a o = some rows' := by
    rw [writeRow]
    split
    · exact ⟨rows, rfl⟩
    · exact ⟨_, by rw [h]; rfl⟩
  obtain ⟨rows', hw⟩ := hw
  refine ⟨rows', hw, ?_⟩
  rcases writeRow_cases hw with ⟨hnone, -⟩ | ⟨cur, hcur, rfl⟩
  · rw [h] at hnone
    cases hnone
  · rw [h] at hcur
    cases hcur
    simp

theorem Like.flush (h : Like r₀ o.saved) : Like r₀ (o.saved.flush o) :=
  ⟨h.base, h.format, h.dataset⟩

@[simp] theorem flush_status : (o.saved.flush o).status = o.now.status := flushField_sync _ _

@[simp] theorem flush_evalMetrics : (o.saved.flush o).evalMetrics = o.now.evalMetrics :=
  flushField_sync _ _

/-- A verdict leaves the columns of the upload. -/
theorem Like.verdict {m : Metrics} (h : Like r₀ r) : Like r₀ (Adapters.verdict c m r) := by
  unfold Adapters.verdict
  split
  · exact ⟨h.base, h.format, h.dataset⟩
  · exact ⟨h.base, h.format, h.dataset⟩

theorem verdict_result {m : Metrics} :
    ((Adapters.verdict c m r).status, (Adapters.verdict c m r).evalMetrics) =
      (if m.passed then .passed else .failed, some m) := by
  unfold Adapters.verdict
  split
  · rfl
  · rfl

/-! ## What is expected -/

/-- A verdict is final. -/
theorem expected_final : (expected c w r₀ ds).1 = .passed ∨ (expected c w r₀ ds).1 = .failed := by
  unfold expected
  split
  · exact .inr rfl
  · exact .inr rfl
  · exact .inr rfl
  · split
    · exact .inr rfl
    · split
      · dsimp only
        split
        · exact .inl rfl
        · exact .inr rfl
      · exact .inr rfl

theorem expected_of_built_none (hb : w.built r₀.format = none) :
    expected c w r₀ ds = (.failed, none) := by
  unfold expected
  rw [hb]
  split <;> rfl

/-- The verdict of a file that is there, once the checks have passed. -/
theorem expected_of_ready (hg : Gated c r₀ ds base task) (hr : Ready w r₀ x g) :
    expected c w r₀ ds = match w.probe g, w.rows, w.score g with
      | .ok _, .ok n, .ok y =>
          let m := evaluate c.thresholds n y.1 y.2 task
          (if m.passed then .passed else .failed, some m)
      | _, _, _ => (.failed, none) := by
  obtain ⟨entry, he, -, ht, hne⟩ := hg
  unfold expected
  rw [he, ht, hr.1]
  cases task with
  | freeform => exact absurd rfl hne
  | classify | extract => rfl

/-- The end of a job that fails before it has a score. -/
theorem jobOk_failed {message : Option String} (hs : Synced a r₀ x o) (ho : Opened r₀ o.now)
    (he : expected c w r₀ ds = (.failed, none)) : x.JobOk c w a r₀ ds (.failed o message) := by
  refine ⟨hs, ⟨ho.base, ho.format, ho.dataset⟩, ?_⟩
  rw [he]
  simp [Tracked.assign, failWith, ho.metrics]

/-- Only the row and a finished file matter to the job. -/
theorem Site.JobOk.congr {pc : JobPc} (h : x.JobOk c w a r₀ ds pc)
    (hrow : x'.life.adapters a = x.life.adapters a)
    (hready : ∀ g, Ready w r₀ x g → Ready w r₀ x' g) : x'.JobOk c w a r₀ ds pc := by
  have hs : ∀ o, Synced a r₀ x o → Synced a r₀ x' o := fun o hs ↦ ⟨hrow.trans hs.1, hs.2⟩
  cases pc with
  | load => trivial
  | startCommit o => exact ⟨hrow.trans h.1, h.2⟩
  | dataset o | convert o base task | endCommit o => exact ⟨hs o h.1, h.2⟩
  | ggufCommit o base task | probe o base task =>
      obtain ⟨h₁, h₂, h₃, g, hg⟩ := h
      exact ⟨hs o h₁, h₂, h₃, g, hready g hg⟩
  | readRows o base task =>
      obtain ⟨h₁, h₂, h₃, g, hg, hp⟩ := h
      exact ⟨hs o h₁, h₂, h₃, g, hready g hg, hp⟩
  | score o base task n =>
      obtain ⟨h₁, h₂, h₃, h₄, g, hg, hp⟩ := h
      exact ⟨hs o h₁, h₂, h₃, h₄, g, hready g hg, hp⟩

/-- A commit of the job keeps the row undecided, or decides it as expected. -/
theorem rowOk_flush {pc : JobPc} (h : x.JobOk c w a r₀ ds pc) (hf : pc.flushing = some o) :
    x.life.adapters a = some o.saved ∧ RowOk c w r₀ ds (o.saved.flush o) := by
  cases pc with
  | startCommit o' =>
      cases hf
      obtain ⟨hrow, hlike, hm, -, hnow⟩ := h
      exact ⟨hrow, hlike.flush, .inl ⟨.inr (by simp [hnow]), by simp [hnow, hm]⟩⟩
  | ggufCommit o' base task =>
      cases hf
      obtain ⟨⟨hrow, hopen⟩, hnow, -⟩ := h
      exact ⟨hrow, hopen.toLike.flush, .inl ⟨.inr (by simp [hnow, setGguf, hopen.status]),
        by simp [hnow, setGguf, hopen.metrics]⟩⟩
  | endCommit o' =>
      cases hf
      obtain ⟨⟨hrow, hopen⟩, -, hexp⟩ := h
      exact ⟨hrow, hopen.toLike.flush, .inr (by simpa using hexp)⟩
  | load | dataset | convert | probe | readRows | score => cases hf

/-- The checks before the slow part. -/
theorem jobOk_afterDataset (hs : Synced a r₀ x o) (hnow : o.now = o.saved) :
    x.JobOk c w a r₀ ds (afterDataset c o ds) := by
  have ho : Opened r₀ o.now := hnow ▸ hs.2
  unfold afterDataset
  cases hres : resolve c.catalog o.now.baseModel with
  | none =>
      apply jobOk_failed hs ho
      simp [expected, ← ho.base, hres]
  | some entry =>
      cases htask : ds.bind Dataset.task with
      | none =>
          apply jobOk_failed hs ho
          simp [expected, ← ho.base, hres, htask]
      | some task =>
          cases task with
          | freeform =>
              apply jobOk_failed hs ho
              simp [expected, ← ho.base, hres, htask]
          | classify | extract =>
              have hg : Gated c r₀ ds entry.name _ := ⟨entry, ho.base ▸ hres, rfl, htask, by simp⟩
              cases hf : o.now.format with
              | peft => exact ⟨hs, hnow, hg, ho.format.symm.trans hf⟩
              | gguf =>
                  have hf : r₀.format = .gguf := ho.format.symm.trans hf
                  exact ⟨hs, hnow, hg, w.uploaded, by rw [hf]; rfl, fun hp ↦ by simp [hf] at hp⟩

/-- The checks lead to the end, to the conversion or to the probe. -/
theorem afterDataset_cases (c : Config) (o : Tracked Adapter) (d : Option Dataset) :
    (∃ o', afterDataset c o d = .endCommit o') ∨
      (∃ base task, afterDataset c o d = .convert o base task) ∨
      ∃ base task, afterDataset c o d = .probe o base task := by
  unfold afterDataset
  split
  · exact .inl ⟨_, rfl⟩
  · exact .inl ⟨_, rfl⟩
  · exact .inl ⟨_, rfl⟩
  · split
    · exact .inr (.inl ⟨_, _, rfl⟩)
    · exact .inr (.inr ⟨_, _, rfl⟩)

/-- The path of the row holds the file that is ready. -/
theorem content_of_ready (hr : Ready w r₀ x g) (hl : Like r₀ r) : x.content w r = some g := by
  unfold Site.content
  rw [hl.format]
  cases hf : r₀.format with
  | gguf => simpa [Ready, World.built, hf] using hr.1
  | peft => exact (hr.2 hf).1

/-! ## Steps of the job -/

/-- The slow part of the job has not begun, or it is the conversion. -/
def JobPc.early : JobPc → Bool
  | .load | .startCommit _ | .dataset _ | .convert _ _ _ => true
  | .ggufCommit _ _ _ | .probe _ _ _ | .readRows _ _ _ | .score _ _ _ _ | .endCommit _ => false

/-- A job that gets to the conversion finds the file absent or complete. -/
structure Site.Tidy (w : World γ) (a : AdapterId) (x : Site γ) : Prop where
  orphans : x.orphans = []
  file : x.child = none → x.verdict a = none →
    (∀ v, x.life.worker = some v → JobPc.early v.2) → x.file = none ∨ x.file = w.built .peft

/-- How far the job is from its end. -/
def Site.rank (w : World γ) (x : Site γ) : Nat :=
  match x.life.worker with
  | none => w.writes.length + 11
  | some (_, .load) => w.writes.length + 10
  | some (_, .startCommit _) => w.writes.length + 9
  | some (_, .dataset _) => w.writes.length + 8
  | some (_, .convert _ _ _) =>
      match x.child with
      | none => w.writes.length + 7
      | some k => w.writes.length - k + 6
  | some (_, .ggufCommit _ _ _) => 5
  | some (_, .probe _ _ _) => 4
  | some (_, .readRows _ _ _) => 3
  | some (_, .score _ _ _ _) => 2
  | some (_, .endCommit _) => 1

/-- A step that keeps the invariant and brings the job forward. -/
structure Forward (c : Config) (w : World γ) (a : AdapterId) (r₀ : Adapter) (ds : Option Dataset)
    (x x' : Site γ) : Prop where
  inv : x'.Inv c w a r₀ ds
  rank : x'.rank w < x.rank w ∨ x'.verdict a ≠ none
  tidy : x.Tidy w a → x'.Tidy w a

namespace Site.Inv

/-- The job goes on, or ends, and waits for no converter. -/
theorem next (h : x.Inv c w a r₀ ds) (hj : x'.life.jobs = x.life.jobs)
    (hd : x'.life.datasets = x.life.datasets)
    (hrow : ∃ r, x'.life.adapters a = some r ∧ RowOk c w r₀ ds r) (hc : x'.child = none)
    (hw : ∀ v, x'.life.worker = some v → v.1 = a ∧ x'.JobOk c w a r₀ ds v.2) :
    x'.Inv c w a r₀ ds where
  jobs := hj ▸ h.jobs
  data := hd ▸ h.data
  row := hrow
  worker a' pc hpc := hw (a', pc) hpc
  child k hk := by
    rw [hc] at hk
    cases hk

/-- The job goes on at `pc`, and no row is written. -/
theorem goto {pc : JobPc} (h : x.Inv c w a r₀ ds) (hl : x'.life = x.life.jobAt a (some pc))
    (hc : x'.child = none) (hpc : x'.JobOk c w a r₀ ds pc) : x'.Inv c w a r₀ ds := by
  apply h.next (by rw [hl]; rfl) (by rw [hl]; rfl) (by rw [hl]; exact h.row) hc
  intro v hv
  rw [hl] at hv
  cases hv
  exact ⟨rfl, hpc⟩

/-- Only a job at the conversion has a converter. -/
theorem child_eq_none (h : x.Inv c w a r₀ ds)
    (hw : ∀ o base task, x.life.worker ≠ some (a, .convert o base task)) : x.child = none := by
  cases hc : x.child with
  | none => rfl
  | some k =>
      obtain ⟨⟨o, base, task, hpc⟩, -⟩ := h.child k hc
      exact absurd hpc (hw o base task)

/-- A row that is decided is decided as expected. -/
theorem verdict_eq {v : AdapterStatus × Option Metrics} (h : x.Inv c w a r₀ ds)
    (hv : x.verdict a = some v) : v = expected c w r₀ ds := by
  obtain ⟨r, hr, -, hopen | hdone⟩ := h.row
  · rw [verdict, hr] at hv
    obtain ⟨hs | hs, -⟩ := hopen <;> simp [hs] at hv
  · rw [verdict, hr] at hv
    simp only [Option.bind_some] at hv
    split at hv
    · rw [← hdone]
      exact (Option.some.inj hv).symm
    · cases hv

/-- The job goes on at `q`, and no row is written. -/
theorem forward {pc q : JobPc} (h : x.Inv c w a r₀ ds) (hw : x.life.worker = some (a, pc))
    (hc : x.child = none) (hq : x.JobOk c w a r₀ ds q) (he : JobPc.early q → JobPc.early pc)
    (hr : ∀ l : State, l.worker = some (a, q) → { x with life := l }.rank w < x.rank w)
    {l : State} (hl : l.worker = some (a, q)) (hrows : l.adapters = x.life.adapters)
    (hj : l.jobs = x.life.jobs) (hd : l.datasets = x.life.datasets) :
    Forward c w a r₀ ds x { x with life := l } where
  inv := by
    refine h.next hj hd (by rw [hrows]; exact h.row) hc ?_
    intro v hv
    have hv : v = (a, q) := by simpa [hl] using hv.symm
    subst hv
    exact ⟨rfl, hq.congr (by rw [hrows]) fun g hg ↦ hg⟩
  rank := .inl (hr l hl)
  tidy ht := by
    refine ⟨ht.orphans, fun _ hv hearly ↦ ht.file hc ?_ ?_⟩
    · simpa [verdict, hrows] using hv
    · intro v hpc
      rw [hw] at hpc
      cases hpc
      exact he (hearly _ hl)

/-- The job has read its row: it ends if the row is decided. -/
theorem go_load (h : x.Inv c w a r₀ ds) (hw : x.life.worker = some (a, .load)) :
    ∃ x', x.go c w a .load = some x' ∧ Forward c w a r₀ ds x x' := by
  have hc : x.child = none := h.child_eq_none fun o base task heq ↦ by simp [hw] at heq
  obtain ⟨r, hr, hlike, hrow⟩ := h.row
  by_cases hfinal : r.status = .passed ∨ r.status = .failed
  · refine ⟨{ x with life := x.life.jobAt a none },
      by simp [go, event, reply, State.job, hr, hfinal], ?_⟩
    have hv : Site.verdict { x with life := x.life.jobAt a none } a ≠ none := by
      simp [verdict, State.jobAt, hr, hfinal]
    refine ⟨h.next rfl rfl h.row hc (fun v hv ↦ by cases hv), .inr hv, ?_⟩
    intro ht
    exact ⟨ht.orphans, fun _ hnone _ ↦ absurd hnone hv⟩
  · refine ⟨_, by simp [go, event, reply, State.job, hr, hfinal]; rfl, ?_⟩
    refine h.forward hw hc ?_ (fun _ ↦ rfl) (fun l hl ↦ by simp [rank, hl, hw]) rfl rfl rfl rfl
    refine ⟨hr, hlike, ?_, hfinal, rfl⟩
    rcases hrow with ⟨-, hm⟩ | hdone
    · exact hm
    · have hstatus : r.status = (expected c w r₀ ds).1 := congrArg Prod.fst hdone
      rw [hstatus] at hfinal
      exact absurd expected_final hfinal

/-- The commit of a row the session has in sync. -/
theorem go_commit {pc : JobPc} (h : x.Inv c w a r₀ ds) (hw : x.life.worker = some (a, pc))
    (hf : pc.flushing = some o)
    (hnext : ∀ x' : Site γ, x'.life.adapters a = some (o.saved.flush o) →
      (∀ g, Ready w r₀ x g → Ready w r₀ x' g) →
      ∀ q, pc.afterCommit = some q → x'.JobOk c w a r₀ ds q) :
    ∃ rows, x.event c a pc (.commit .ok) =
        some { x with life := { x.life with adapters := rows }.jobAt a pc.afterCommit } ∧
      rows a = some (o.saved.flush o) ∧
      Site.Inv c w a r₀ ds
        { x with life := { x.life with adapters := rows }.jobAt a pc.afterCommit } := by
  have hc : x.child = none := h.child_eq_none fun o' base task heq ↦ by
    rw [hw] at heq
    cases heq
    cases hf
  obtain ⟨hsaved, hok⟩ := rowOk_flush (h.worker a pc hw).2 hf
  obtain ⟨rows, hrows, hrow⟩ := writeRow_saved hsaved
  refine ⟨rows, by simp [event, State.job, hf, hrows], hrow, ?_⟩
  refine h.next rfl rfl ⟨_, hrow, hok⟩ hc ?_
  intro v hv
  obtain ⟨q, hq, rfl⟩ := Option.map_eq_some_iff.mp hv
  refine ⟨rfl, hnext _ hrow ?_ q hq⟩
  exact fun g hg ↦ hg

theorem go_startCommit (h : x.Inv c w a r₀ ds) (hw : x.life.worker = some (a, .startCommit o)) :
    ∃ x', x.go c w a (.startCommit o) = some x' ∧ Forward c w a r₀ ds x x' := by
  obtain ⟨hsaved, hlike, hm, hfinal, hnow⟩ := (h.worker a _ hw).2
  have hflush : o.saved.flush o = o.now := by simp [Adapter.flush, hnow]
  have hopen : Opened r₀ o.now := by
    rw [hnow]
    exact ⟨⟨hlike.base, hlike.format, hlike.dataset⟩, rfl, hm⟩
  obtain ⟨rows, heq, hrow, hinv⟩ := h.go_commit hw rfl fun x' hx' _ q hq ↦ by
    cases hq
    exact ⟨⟨hx'.trans (congrArg some hflush), hopen⟩, rfl⟩
  refine ⟨_, heq, hinv, .inl (by simp [rank, hw, State.jobAt, JobPc.afterCommit]), ?_⟩
  intro ht
  refine ⟨ht.orphans, fun hc hv _ ↦ ht.file hc ?_ ?_⟩
  · simp [verdict, hsaved, hfinal]
  · intro v hpc
    rw [hw] at hpc
    cases hpc
    rfl

theorem go_ggufCommit (h : x.Inv c w a r₀ ds)
    (hw : x.life.worker = some (a, .ggufCommit o base task)) :
    ∃ x', x.go c w a (.ggufCommit o base task) = some x' ∧ Forward c w a r₀ ds x x' := by
  obtain ⟨⟨hsaved, hopen⟩, hnow, hg, g, hready⟩ := (h.worker a _ hw).2
  have hflush : o.saved.flush o = o.now := by simp [Adapter.flush, hnow, setGguf]
  have hopen' : Opened r₀ o.now := by
    rw [hnow]
    exact ⟨⟨hopen.base, hopen.format, hopen.dataset⟩, hopen.status, hopen.metrics⟩
  obtain ⟨rows, heq, hrow, hinv⟩ := h.go_commit hw rfl fun x' hx' hr q hq ↦ by
    cases hq
    exact ⟨⟨hx'.trans (congrArg some hflush), hopen'⟩, rfl, hg, g, hr g hready⟩
  refine ⟨_, heq, hinv, .inl (by simp [rank, hw, State.jobAt, JobPc.afterCommit]), ?_⟩
  intro ht
  exact ⟨ht.orphans, fun _ _ hearly ↦ absurd (hearly _ rfl) Bool.false_ne_true⟩

theorem go_endCommit (h : x.Inv c w a r₀ ds) (hw : x.life.worker = some (a, .endCommit o)) :
    ∃ x', x.go c w a (.endCommit o) = some x' ∧ Forward c w a r₀ ds x x' := by
  obtain ⟨-, -, hexp⟩ := (h.worker a _ hw).2
  obtain ⟨rows, heq, hrow, hinv⟩ := h.go_commit hw rfl fun x' _ _ q hq ↦ by cases hq
  have hfinal : o.now.status = .passed ∨ o.now.status = .failed := by
    rw [show o.now.status = (expected c w r₀ ds).1 from congrArg Prod.fst hexp]
    exact expected_final
  have hv :
      Site.verdict { x with life := { x.life with adapters := rows }.jobAt a none } a ≠ none := by
    simp [verdict, State.jobAt, hrow, hfinal]
  exact ⟨_, heq, hinv, .inr hv, fun ht ↦ ⟨ht.orphans, fun _ hnone _ ↦ absurd hnone hv⟩⟩

/-- The job has read the dataset. -/
theorem go_dataset (h : x.Inv c w a r₀ ds) (hw : x.life.worker = some (a, .dataset o)) :
    ∃ x', x.go c w a (.dataset o) = some x' ∧ Forward c w a r₀ ds x x' := by
  obtain ⟨hs, hnow⟩ := (h.worker a _ hw).2
  have hc : x.child = none := h.child_eq_none fun o' base task heq ↦ by simp [hw] at heq
  have hds : x.life.datasets o.now.evalDataset = ds := by rw [hnow, hs.2.dataset, h.data]
  refine ⟨_, by simp only [go, event, reply, State.job, hds]; rfl, ?_⟩
  refine h.forward hw hc (jobOk_afterDataset hs hnow) (fun _ ↦ rfl) ?_ rfl rfl rfl rfl
  intro l hl
  rcases afterDataset_cases c o ds with ⟨o', heq⟩ | ⟨base, task, heq⟩ | ⟨base, task, heq⟩
  · simp [rank, hl, hw, heq]
  · simp [rank, hl, hw, heq, hc]
  · simp [rank, hl, hw, heq]

/-- A call of the job on the file ends. -/
theorem go_probe (h : x.Inv c w a r₀ ds) (hw : x.life.worker = some (a, .probe o base task)) :
    ∃ x', x.go c w a (.probe o base task) = some x' ∧ Forward c w a r₀ ds x x' := by
  obtain ⟨hs, hnow, hg, g, hr⟩ := (h.worker a _ hw).2
  have hc : x.child = none := h.child_eq_none fun o' base task heq ↦ by simp [hw] at heq
  have ho : Opened r₀ o.now := hnow ▸ hs.2
  have hreply : x.reply w (.probe o base task) = outcome (w.probe g) fun _ ↦ .probed := by
    simp [reply, onFile, content_of_ready hr ho.toLike]
  cases hp : w.probe g with
  | ok _ =>
      refine ⟨_, by simp only [go, event, hreply, hp, outcome, State.job]; rfl, ?_⟩
      have hq : x.JobOk c w a r₀ ds (.readRows o base task) := ⟨hs, hnow, hg, g, hr, hp⟩
      exact h.forward hw hc hq (absurd · Bool.false_ne_true)
        (fun l hl ↦ by simp [rank, hl, hw]) rfl rfl rfl rfl
  | error message =>
      refine ⟨_, by simp only [go, event, hreply, hp, outcome, State.job]; rfl, ?_⟩
      refine h.forward hw hc (jobOk_failed hs ho ?_) (absurd · Bool.false_ne_true)
        (fun l hl ↦ by simp [rank, hl, hw, JobPc.failed]) rfl rfl rfl rfl
      rw [expected_of_ready hg hr, hp]

theorem go_readRows (h : x.Inv c w a r₀ ds) (hw : x.life.worker = some (a, .readRows o base task)) :
    ∃ x', x.go c w a (.readRows o base task) = some x' ∧ Forward c w a r₀ ds x x' := by
  obtain ⟨hs, hnow, hg, g, hr, hp⟩ := (h.worker a _ hw).2
  have hc : x.child = none := h.child_eq_none fun o' base task heq ↦ by simp [hw] at heq
  have ho : Opened r₀ o.now := hnow ▸ hs.2
  cases hn : w.rows with
  | ok n =>
      refine ⟨_, by simp only [go, event, reply, hn, outcome, State.job]; rfl, ?_⟩
      have hq : x.JobOk c w a r₀ ds (.score o base task n) := ⟨hs, hnow, hg, hn, g, hr, hp⟩
      exact h.forward hw hc hq (absurd · Bool.false_ne_true)
        (fun l hl ↦ by simp [rank, hl, hw]) rfl rfl rfl rfl
  | error message =>
      refine ⟨_, by simp only [go, event, reply, hn, outcome, State.job]; rfl, ?_⟩
      refine h.forward hw hc (jobOk_failed hs ho ?_) (absurd · Bool.false_ne_true)
        (fun l hl ↦ by simp [rank, hl, hw, JobPc.failed]) rfl rfl rfl rfl
      rw [expected_of_ready hg hr, hp, hn]

theorem go_score (h : x.Inv c w a r₀ ds) (hw : x.life.worker = some (a, .score o base task n)) :
    ∃ x', x.go c w a (.score o base task n) = some x' ∧ Forward c w a r₀ ds x x' := by
  obtain ⟨hs, hnow, hg, hn, g, hr, hp⟩ := (h.worker a _ hw).2
  have hc : x.child = none := h.child_eq_none fun o' base task heq ↦ by simp [hw] at heq
  have ho : Opened r₀ o.now := hnow ▸ hs.2
  have hreply : x.reply w (.score o base task n) = outcome (w.score g) fun s ↦ .scored s.1 s.2 := by
    simp [reply, onFile, content_of_ready hr ho.toLike]
  cases hy : w.score g with
  | ok y =>
      refine ⟨_, by simp only [go, event, hreply, hy, outcome, State.job]; rfl, ?_⟩
      have hq : x.JobOk c w a r₀ ds
          (.endCommit (o.assign (Adapters.verdict c (evaluate c.thresholds n y.1 y.2 task)))) := by
        refine ⟨hs, ho.toLike.verdict, ?_⟩
        rw [expected_of_ready hg hr, hp, hn, hy]
        exact verdict_result
      exact h.forward hw hc hq (absurd · Bool.false_ne_true)
        (fun l hl ↦ by simp [rank, hl, hw]) rfl rfl rfl rfl
  | error message =>
      refine ⟨_, by simp only [go, event, hreply, hy, outcome, State.job]; rfl, ?_⟩
      refine h.forward hw hc (jobOk_failed hs ho ?_) (absurd · Bool.false_ne_true)
        (fun l hl ↦ by simp [rank, hl, hw, JobPc.failed]) rfl rfl rfl rfl
      rw [expected_of_ready hg hr, hp, hn, hy]

/-- The job gets to the conversion: a complete file is taken, else the converter starts. -/
theorem go_convert (h : x.Inv c w a r₀ ds) (hw : x.life.worker = some (a, .convert o base task))
    (hc : x.child = none) (ho : x.orphans = [])
    (hf : x.file = none ∨ x.file = w.built .peft) :
    ∃ x', x.go c w a (.convert o base task) = some x' ∧ Forward c w a r₀ ds x x' := by
  obtain ⟨hs, hnow, hg, hpeft⟩ := (h.worker a _ hw).2
  cases hfile : x.file with
  | some f =>
      have hgo : x.go c w a (.convert o base task) =
          x.event c a (.convert o base task) .converted := by
        simp only [go, convert, hc, hfile]
      refine ⟨_, hgo, ?_⟩
      have hbuilt : w.built r₀.format = some f := by
        rw [hpeft]
        rcases hf with hf | hf
        · simp [hfile] at hf
        · exact hf.symm.trans hfile
      have hq : x.JobOk c w a r₀ ds (.ggufCommit (o.assign (setGguf c)) base task) :=
        ⟨hs, congrArg (setGguf c) hnow, hg, f, hbuilt, fun _ ↦ ⟨hfile, ho⟩⟩
      exact h.forward hw hc hq (absurd · Bool.false_ne_true)
        (fun l hl ↦ by simp [rank, hl, hw, hc]) rfl rfl rfl rfl
  | none =>
      cases hchecks : w.checks with
      | some message =>
          have hgo : x.go c w a (.convert o base task) =
              x.event c a (.convert o base task) (.raised (some message)) := by
            simp only [go, convert, hc, hfile, hchecks]
          refine ⟨_, hgo, ?_⟩
          have hq : x.JobOk c w a r₀ ds (.failed o (some message)) := by
            refine jobOk_failed hs (hnow ▸ hs.2) (expected_of_built_none ?_)
            simp [hpeft, World.built, hchecks]
          exact h.forward hw hc hq (absurd · Bool.false_ne_true)
            (fun l hl ↦ by simp [rank, hl, hw, hc, JobPc.failed]) rfl rfl rfl rfl
      | none =>
          refine ⟨{ x with child := some 0 }, by simp [go, convert, hc, hfile, hchecks], ?_⟩
          refine ⟨⟨h.jobs, h.data, h.row, ?_, ?_⟩, ?_, ?_⟩
          · intro a' pc hpc
            exact ⟨(h.worker a' pc hpc).1, (h.worker a' pc hpc).2.congr rfl fun _ hr ↦ hr⟩
          · intro k hk
            cases hk
            exact ⟨⟨o, base, task, hw⟩, ho, hchecks, Nat.zero_le _, by simpa using hfile⟩
          · exact .inl (by simp [rank, hw, hc])
          · intro ht
            exact ⟨ht.orphans, fun hnone ↦ by cases hnone⟩

/-- The converter writes. -/
theorem forward_write {k : Nat} (h : x.Inv c w a r₀ ds) (hc : x.child = some k)
    (hk : w.writes[k]? = some g) :
    Forward c w a r₀ ds x { x with file := some g, child := some (k + 1) } := by
  obtain ⟨⟨o, base, task, hw⟩, ho, hchecks, hle, hfile⟩ := h.child k hc
  have hlt : k < w.writes.length := (List.getElem?_eq_some_iff.mp hk).1
  refine ⟨⟨h.jobs, h.data, h.row, ?_, ?_⟩, ?_, ?_⟩
  · intro a' pc hpc
    -- past the conversion the file matters, but the job is at it
    obtain ⟨rfl, rfl⟩ : a = a' ∧ JobPc.convert o base task = pc := by simpa [hw] using hpc
    exact ⟨rfl, (h.worker a _ hw).2⟩
  · intro k' hk'
    cases hk'
    refine ⟨⟨o, base, task, hw⟩, ho, hchecks, hlt, ?_⟩
    simp [List.take_add_one, hk]
  · apply Or.inl
    simp only [rank, hw, hc]
    omega
  · intro ht
    exact ⟨ht.orphans, fun hnone ↦ by cases hnone⟩

/-- The converter ends; nobody else has written the file. -/
theorem forward_exit {pc : JobPc} (h : x.Inv c w a r₀ ds) (hc : x.child = some w.writes.length)
    (hw : x.life.worker = some (a, pc)) :
    ∃ x', x.exit c w a pc = some x' ∧ Forward c w a r₀ ds x x' := by
  obtain ⟨⟨o, base, task, hw'⟩, ho, hchecks, -, hfile⟩ := h.child _ hc
  obtain rfl : JobPc.convert o base task = pc := by simpa [hw] using hw'.symm
  obtain ⟨hs, hnow, hg, hpeft⟩ := (h.worker a _ hw).2
  rw [List.take_length] at hfile
  by_cases hok : w.exitOk ∧ x.file.isSome
  · obtain ⟨f, hf⟩ := Option.isSome_iff_exists.mp hok.2
    refine ⟨_, by simp only [exit, if_pos hok, event, State.job]; rfl, ?_⟩
    have hbuilt : w.built r₀.format = some f := by
      simp [hpeft, World.built, hchecks, hok.1, ← hfile, hf]
    refine ⟨h.goto rfl rfl ?_, .inl (by simp [rank, State.jobAt, hw, hc]), ?_⟩
    · exact ⟨hs, congrArg (setGguf c) hnow, hg, f, hbuilt, fun _ ↦ ⟨hf, ho⟩⟩
    · intro ht
      exact ⟨ht.orphans, fun _ _ hearly ↦ absurd (hearly _ rfl) Bool.false_ne_true⟩
  · refine ⟨_, by simp only [exit, if_neg hok, event, State.job]; rfl, ?_⟩
    have hbuilt : w.built r₀.format = none := by
      rw [hpeft, World.built]
      split
      · next hb =>
          rw [← hfile]
          exact Option.not_isSome_iff_eq_none.mp fun hsome ↦ hok ⟨hb.2, hsome⟩
      · rfl
    refine ⟨h.goto rfl rfl ?_, .inl ?_, ?_⟩
    · exact jobOk_failed hs (hnow ▸ hs.2) (expected_of_built_none hbuilt)
    · simp [rank, State.jobAt, hw, hc, JobPc.afterRaise, JobPc.failed]
    · intro ht
      exact ⟨ht.orphans, fun _ _ hearly ↦ absurd (hearly _ rfl) Bool.false_ne_true⟩

/-- The awaited call can end. -/
theorem exists_go {pc : JobPc} (h : x.Inv c w a r₀ ds) (hw : x.life.worker = some (a, pc))
    (hc : x.child = none) (hclean : Clean w x .go) :
    ∃ x', x.go c w a pc = some x' ∧ Forward c w a r₀ ds x x' := by
  cases pc with
  | load => exact h.go_load hw
  | startCommit o => exact h.go_startCommit hw
  | dataset o => exact h.go_dataset hw
  | convert o base task =>
      simp only [Clean, hw] at hclean
      exact h.go_convert hw hc hclean.1 hclean.2
  | ggufCommit o base task => exact h.go_ggufCommit hw
  | probe o base task => exact h.go_probe hw
  | readRows o base task => exact h.go_readRows hw
  | score o base task n => exact h.go_score hw
  | endCommit o => exact h.go_endCommit hw

/-- The worker takes the job. -/
theorem forward_take (h : x.Inv c w a r₀ ds) (hw : x.life.worker = none) :
    Forward c w a r₀ ds x { x with life := x.life.jobAt a (some .load) } := by
  have hc : x.child = none := h.child_eq_none fun o base task heq ↦ by simp [hw] at heq
  refine ⟨h.goto rfl hc trivial, .inl (by simp [rank, State.jobAt, hw]), ?_⟩
  intro ht
  refine ⟨ht.orphans, fun _ hv _ ↦ ht.file hc hv ?_⟩
  intro v hv
  rw [hw] at hv
  cases hv

/-- Every step of the job brings it forward. -/
theorem forward_of_step {m : Move} (h : x.Inv c w a r₀ ds) (hclean : Clean w x m)
    (hs : x.step c w a m = some x') :
    (∃ applied survives, m = .cancel applied survives) ∨ (∃ n, m = .orphan n) ∨
      Forward c w a r₀ ds x x' := by
  cases m with
  | take =>
      obtain ⟨l, hl, rfl⟩ := Option.map_eq_some_iff.mp hs
      cases Step.of_step hl with
      | take hfree => exact .inr (.inr (h.forward_take hfree))
  | go =>
      obtain ⟨⟨a', pc⟩, hw, hgo⟩ := Option.bind_eq_some_iff.mp hs
      obtain rfl := (h.worker a' pc hw).1
      refine .inr (.inr ?_)
      cases hc : x.child with
      | none =>
          obtain ⟨x'', hx'', hf⟩ := h.exists_go hw hc hclean
          obtain rfl : x'' = x' := Option.some.inj (hx''.symm.trans hgo)
          exact hf
      | some k =>
          -- the job waits for the converter
          obtain ⟨⟨o, base, task, hpc⟩, -⟩ := h.child k hc
          obtain rfl : JobPc.convert o base task = pc := by simpa [hw] using hpc.symm
          simp [Site.go, convert, hc] at hgo
  | write =>
      simp only [Site.step] at hs
      split at hs
      · next k hc =>
          obtain ⟨g, hg, rfl⟩ := Option.map_eq_some_iff.mp hs
          exact .inr (.inr (h.forward_write hc hg))
      · cases hs
  | exit =>
      simp only [Site.step] at hs
      split at hs
      · next k v hc hw =>
          split at hs
          · next hk =>
              subst hk
              obtain ⟨a', pc⟩ := v
              obtain rfl := (h.worker a' pc hw).1
              obtain ⟨x'', hx'', hf⟩ := h.forward_exit hc hw
              obtain rfl : x'' = x' := Option.some.inj (hx''.symm.trans hs)
              exact .inr (.inr hf)
          · cases hs
      · cases hs
  | cancel applied survives => exact .inl ⟨applied, survives, rfl⟩
  | orphan n => exact .inr (.inl ⟨n, rfl⟩)

/-- A cancelled job leaves a row that is undecided, or decided as expected. -/
theorem cancel {applied survives : Bool} (h : x.Inv c w a r₀ ds)
    (hs : x.step c w a (.cancel applied survives) = some x') : x'.Inv c w a r₀ ds := by
  obtain ⟨⟨a', pc⟩, hw, hs⟩ := Option.bind_eq_some_iff.mp hs
  obtain ⟨rfl, hjob⟩ := h.worker a' pc hw
  obtain rfl := Option.some.inj hs
  refine h.next rfl rfl ?_ rfl fun v hv ↦ by cases hv
  show ∃ r, x.life.mayWrite a' pc applied a' = some r ∧ RowOk c w r₀ ds r
  simp only [State.mayWrite]
  cases hf : pc.flushing with
  | none => exact h.row
  | some o =>
      cases applied with
      | false => exact h.row
      | true =>
          obtain ⟨hsaved, hok⟩ := rowOk_flush hjob hf
          obtain ⟨rows, hrows, hrow⟩ := writeRow_saved hsaved
          simp only [hrows]
          exact ⟨_, hrow, hok⟩

/-- What a converter of a cancelled run writes is read by no job past the conversion. -/
theorem orphan {n : Nat} (h : x.Inv c w a r₀ ds) (hs : x.step c w a (.orphan n) = some x') :
    x'.Inv c w a r₀ ds := by
  have hne : x.orphans ≠ [] := by
    intro hnil
    simp [Site.step, hnil] at hs
  have hlife : x'.life = x.life ∧ x'.child = x.child := by
    simp only [Site.step] at hs
    split at hs
    · split at hs
      · cases hs
        exact ⟨rfl, rfl⟩
      · cases hs
        exact ⟨rfl, rfl⟩
    · cases hs
  have hready : ∀ g, Ready w r₀ x g → Ready w r₀ x' g :=
    fun g hg ↦ ⟨hg.1, fun hf ↦ absurd (hg.2 hf).2 hne⟩
  refine ⟨hlife.1 ▸ h.jobs, hlife.1 ▸ h.data, hlife.1 ▸ h.row, ?_, ?_⟩
  · intro a' pc hw
    rw [hlife.1] at hw
    exact ⟨(h.worker a' pc hw).1, (h.worker a' pc hw).2.congr (by rw [hlife.1]) hready⟩
  · intro k hk
    rw [hlife.2] at hk
    exact absurd (h.child k hk).2.1 hne

theorem step {m : Move} (h : x.Inv c w a r₀ ds) (hclean : Clean w x m)
    (hs : x.step c w a m = some x') : x'.Inv c w a r₀ ds := by
  rcases h.forward_of_step hclean hs with ⟨applied, survives, rfl⟩ | ⟨n, rfl⟩ | hf
  · exact h.cancel hs
  · exact h.orphan hs
  · exact hf.inv

/-- The job of an adapter that is not decided can go on. -/
theorem exists_forward (h : x.Inv c w a r₀ ds) (ht : x.Tidy w a) (hv : x.verdict a = none) :
    ∃ m x', Uninterrupted x m ∧ x.step c w a m = some x' ∧ Forward c w a r₀ ds x x' := by
  cases hw : x.life.worker with
  | none =>
      refine ⟨.take, _, trivial, ?_, h.forward_take hw⟩
      simp [Site.step, Adapters.step, hw, h.jobs]
  | some v =>
      obtain ⟨a', pc⟩ := v
      obtain rfl := (h.worker a' pc hw).1
      cases hc : x.child with
      | none =>
          have hclean : Clean w x .go := by
            simp only [Clean, hw]
            cases pc with
            | convert o base task =>
                refine ⟨ht.orphans, ht.file hc hv ?_⟩
                intro v hv
                rw [hw] at hv
                cases hv
                rfl
            | _ => trivial
          obtain ⟨x', hgo, hf⟩ := h.exists_go hw hc hclean
          exact ⟨.go, x', trivial, by simpa [Site.step, hw] using hgo, hf⟩
      | some k =>
          obtain ⟨-, -, -, hle, -⟩ := h.child k hc
          by_cases hk : k = w.writes.length
          · subst hk
            obtain ⟨x', hx', hf⟩ := h.forward_exit hc hw
            exact ⟨.exit, x', trivial, by simpa [Site.step, hw, hc] using hx', hf⟩
          · have hlt : k < w.writes.length := by omega
            refine ⟨.write, _, trivial, ?_, h.forward_write hc (List.getElem?_eq_getElem hlt)⟩
            simp [Site.step, hc, List.getElem?_eq_getElem hlt]

end Site.Inv

/-- Without a cancellation the job gets to the conversion in a tidy state. -/
theorem clean_of_tidy {m : Move} (h : x.Inv c w a r₀ ds) (ht : x.Tidy w a)
    (hs : x.step c w a m = some x') : Clean w x m := by
  unfold Clean
  split
  · next a' o base task hw =>
      obtain ⟨rfl, ⟨hrow, hopen⟩, -⟩ := h.worker a' _ hw
      have hc : x.child = none := by
        cases hc : x.child with
        | none => rfl
        | some k => simp [Site.step, hw, Site.go, Site.convert, hc] at hs
      refine ⟨ht.orphans, ht.file hc ?_ ?_⟩
      · simp [Site.verdict, hrow, hopen.status]
      · intro v hv
        rw [hw] at hv
        cases hv
        rfl
  · trivial

/-! ## Runs -/

theorem inv_init {l : State} (hs : r₀.status = .uploaded) (hm : r₀.evalMetrics = none) :
    (interrupted c w a r₀ l).init.Inv c w a r₀ (l.datasets r₀.evalDataset) where
  jobs := List.mem_cons_self
  data := rfl
  row := ⟨r₀, by simp [interrupted, uploadedAs], ⟨rfl, rfl, rfl⟩, .inl ⟨.inl hs, hm⟩⟩
  worker a' pc hpc := by cases hpc
  child k hk := by cases hk

theorem inv_of_clean {l : State} (hs : r₀.status = .uploaded) (hm : r₀.evalMetrics = none)
    (h : (interrupted c w a r₀ l).Reach (Clean w) x) : x.Inv c w a r₀ (l.datasets r₀.evalDataset) :=
  h.invariant (inv_init hs hm) fun _ _ _ hinv hclean hn ↦ hinv.step hclean hn

/-- A run that is not interrupted is one of those in which the file is absent or complete. -/
theorem clean_of_uninterrupted {l : State} (hs : r₀.status = .uploaded)
    (hm : r₀.evalMetrics = none) (h : (interrupted c w a r₀ l).Reach Uninterrupted x) :
    (interrupted c w a r₀ l).Reach (Clean w) x ∧ x.Tidy w a := by
  induction h with
  | init => exact ⟨.init, rfl, fun _ _ _ ↦ .inl rfl⟩
  | @step y y' m hr hu hn ih =>
      obtain ⟨hclean, ht⟩ := ih
      have hinv := inv_of_clean hs hm hclean
      have hm := clean_of_tidy hinv ht hn
      refine ⟨.step hclean hm hn, ?_⟩
      rcases hinv.forward_of_step hm hn with ⟨applied, survives, rfl⟩ | ⟨n, rfl⟩ | hf
      · exact hu.elim
      · -- no converter has been left
        simp [interrupted, Site.step, ht.orphans] at hn
      · exact hf.tidy ht

/-- A job that is not interrupted ends. -/
theorem exists_verdict {l : State} (h : x.Inv c w a r₀ ds) (ht : x.Tidy w a) :
    ∃ y, (interrupted c w a r₀ l).Steps Uninterrupted x y ∧
      y.verdict a = some (expected c w r₀ ds) := by
  induction hn : x.rank w using Nat.strong_induction_on generalizing x with
  | _ n ih =>
      cases hv : x.verdict a with
      | some v =>
          obtain rfl := h.verdict_eq hv
          exact ⟨x, .refl, hv⟩
      | none =>
          obtain ⟨m, y, hu, hs, hf⟩ := h.exists_forward ht hv
          rcases hf.rank with hlt | hdone
          · obtain ⟨z, hz, hv⟩ := ih _ (hn ▸ hlt) hf.inv (hf.tidy ht) rfl
            exact ⟨z, .head ⟨m, hu, hs⟩ hz, hv⟩
          · obtain ⟨v, hv⟩ := Option.ne_none_iff_exists'.mp hdone
            obtain rfl := hf.inv.verdict_eq hv
            exact ⟨y, .single ⟨m, hu, hs⟩, hv⟩

end

/-- **Interruptions do not change the verdict**, if the job finds the file absent or complete
whenever it gets to the conversion, with no converter of an earlier run left: there is a run
without interruptions, and every decided run has its status and metrics. -/
theorem verdict_of_clean (c : Config) (w : World γ) (a : AdapterId) (p : ProjectId) (base : String)
    (f : AdapterFormat) (d : DatasetId) (l : State) :
    ∃ v, (∃ y, (interrupted c w a (c.stored a p base f d) l).Reach Uninterrupted y ∧
        y.verdict a = some v) ∧
      (∀ y, (interrupted c w a (c.stored a p base f d) l).Reach Uninterrupted y →
        ∀ v', y.verdict a = some v' → v' = v) ∧
      ∀ x, (interrupted c w a (c.stored a p base f d) l).Reach (Clean w) x →
        ∀ v', x.verdict a = some v' → v' = v := by
  have hclean : ∀ x, (interrupted c w a (c.stored a p base f d) l).Reach (Clean w) x →
      ∀ v', x.verdict a = some v' →
        v' = expected c w (c.stored a p base f d) (l.datasets (c.stored a p base f d).evalDataset) :=
    fun x hx v' hv ↦ (inv_of_clean rfl rfl hx).verdict_eq hv
  refine ⟨_, ?_, fun y hy ↦ hclean y (clean_of_uninterrupted rfl rfl hy).1, hclean⟩
  have hinit : (interrupted c w a (c.stored a p base f d) l).init.Inv c w a
      (c.stored a p base f d) (l.datasets d) := inv_init rfl rfl
  obtain ⟨y, hy, hv⟩ := exists_verdict (l := l) hinit ⟨rfl, fun _ _ _ ↦ .inl rfl⟩
  exact ⟨y, System.Reach.init.steps hy, hv⟩

/-! ## Two runs -/

instance (x : Site γ) (m : Move) : Decidable (Uninterrupted x m) :=
  match m with
  | .cancel _ _ => .isFalse id
  | .take | .go | .write | .exit | .orphan _ => .isTrue trivial

instance [DecidableEq γ] (w : World γ) (x : Site γ) (m : Move) : Decidable (Clean w x m) := by
  unfold Clean
  split
  · exact inferInstance
  · exact inferInstance

/-- A converter that writes its file in two steps; only the whole file loads. -/
def twoWrites : World Nat :=
  { checks := none
    writes := [1, 2]
    exitOk := true
    uploaded := 0
    probe := fun g ↦ if g = 2 then .ok () else .error none
    rows := .ok 10
    score := fun _ ↦ .ok (1, 0) }

/-- One adapter uploaded for a base of the catalog, with an eval set. -/
def oneUpload : System (Site Nat) Move :=
  interrupted oneBase twoWrites 0 (oneBase.stored 0 0 "tiny" .peft 0)
    { State.init with datasets := fun _ ↦ some ⟨0, true, some .classify⟩ }

/-- The worker is cancelled while the adapter is probed, and runs the job again. -/
def probedTwice : List Move :=
  [.take, .go, .go, .go, .go, .write, .write, .exit, .go, .cancel false true,
    .take, .go, .go, .go, .go, .go, .go, .go, .go, .go]

/-- A run that is cancelled past the conversion. -/
theorem verdict_probedTwice :
    ∃ x v, oneUpload.Reach (Clean twoWrites) x ∧ x.verdict 0 = some v ∧ v.1 = .passed ∧
      ∃ y, oneUpload.Reach Uninterrupted y ∧ y.verdict 0 = some v := by
  obtain ⟨x, hx, hv⟩ := System.Reach.of_exec (S := oneUpload) (g := Clean twoWrites)
    (l := probedTwice) (f := fun x ↦ (x.verdict 0).map Prod.fst) (b := some .passed)
    (by with_unfolding_all decide)
  obtain ⟨v, hv, hpassed⟩ := Option.map_eq_some_iff.mp hv
  obtain ⟨v', ⟨y, hy, hv'⟩, -, hclean⟩ := verdict_of_clean oneBase twoWrites 0 0 "tiny" .peft 0
    { State.init with datasets := fun _ ↦ some ⟨0, true, some .classify⟩ }
  obtain rfl := hclean x hx v hv
  exact ⟨x, v, hx, hv, hpassed, y, hy, hv'⟩

/-- The worker is cancelled after the first write, the converter with it; the next run takes
what is there for the adapter. -/
def halfWrittenRun : List Move :=
  [.take, .go, .go, .go, .go, .write, .cancel false false,
    .take, .go, .go, .go, .go, .go, .go, .go]

/-- The adapter fails, which passes in every run that is not interrupted. -/
theorem halfWrittenRun_changes_verdict :
    (∃ x, oneUpload.Reachable x ∧ x.verdict 0 = some (.failed, none)) ∧
      ∃ y v, oneUpload.Reach Uninterrupted y ∧ y.verdict 0 = some v ∧ v.1 = .passed := by
  constructor
  · exact System.Reach.of_exec (S := oneUpload) (l := halfWrittenRun)
      (f := fun x ↦ x.verdict 0) (by decide)
  · obtain ⟨y, hy, hv⟩ := System.Reach.of_exec (S := oneUpload) (g := Uninterrupted)
      (l := [.take, .go, .go, .go, .go, .write, .write, .exit, .go, .go, .go, .go, .go])
      (f := fun x ↦ (x.verdict 0).map Prod.fst) (b := some .passed) (by with_unfolding_all decide)
    obtain ⟨v, hv, hpassed⟩ := Option.map_eq_some_iff.mp hv
    exact ⟨y, v, hy, hv, hpassed⟩

end Adapta.Adapters.Interrupt
