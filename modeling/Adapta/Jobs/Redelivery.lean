import Adapta.Adapters.Life
import Adapta.Files.Index
import Adapta.Golden.Runs

/-!
# Redelivered jobs

A job that is requeued by a shutdown may have committed its outcome already, and is run
again.  `process_adapter` and `index_file_by_id` look at the row first, and leave one that
is in a terminal status alone.  `process_run` does not look: it sets any run back to
`running` and scores it again.

`Body.harmless_iff` compares the three bodies on every database: a second run leaves a
terminal row as it is, in every column, exactly if it is not a run of the retrieval gate.
-/

namespace Adapta.Jobs

open Lib

/-- A job body and the row it is about. -/
inductive Body where
  | adapter (a : Adapters.AdapterId)
  | index (f : Files.FileId) (final : Bool)
  | ragEval (i : Golden.RunId)

/-- The tables of the three bodies. -/
structure Db where
  adapters : Adapters.State
  files : Files.Stores
  golden : Golden.Db

/-- The settings of the bodies. -/
structure Settings where
  adapters : Adapters.Config
  files : Files.Config

namespace Body

/-- The row is in a terminal status. -/
def Terminal (db : Db) : Body → Prop
  | .adapter a => ∃ r, db.adapters.adapters a = some r ∧ (r.status = .passed ∨ r.status = .failed)
  | .index f _ => ∃ r, db.files.files f = some r ∧ (r.status = .indexed ∨ r.status = .failed)
  | .ragEval i => ∃ r, db.golden.run i = some r ∧ (r.status = .succeeded ∨ r.status = .failed)

/-- The row is the same, in every column. -/
def SameRow (db db' : Db) : Body → Prop
  | .adapter a => db'.adapters.adapters a = db.adapters.adapters a
  | .index f _ => db'.files.files f = db.files.files f
  | .ragEval i => db'.golden.run i = db.golden.run i

/-- `process_adapter`, by itself. -/
def processAdapter (c : Adapters.Config) (a : Adapters.AdapterId) (s : Adapters.State) :
    System Adapters.State Adapters.JobEv :=
  ⟨s.jobAt a (some .load), fun s e ↦ s.worker.bind fun w ↦ s.job c w.1 w.2 e⟩

/-- `index_file_by_id` with its retry, by itself. -/
def indexFileById (c : Files.Config) (f : Files.FileId) (final : Bool) (st : Files.Stores) :
    System (Files.Stores × Files.IndexJob) Files.JobEv :=
  ⟨(st, .attempt final .lookup), fun x e ↦ x.2.step c f x.1 false e⟩

/-- The body, run on `db` from its start, can leave `db'`: it has returned, raised or was
cancelled there. -/
inductive Leaves (c : Settings) (db : Db) : Body → Db → Prop
  | adapter {a : Adapters.AdapterId} {s : Adapters.State}
      (h : (processAdapter c.adapters a db.adapters).Reachable s) (hw : s.worker = none) :
      Leaves c db (.adapter a) { db with adapters := s }
  | index {f : Files.FileId} {final : Bool} {st : Files.Stores} {j : Files.IndexJob}
      (h : (indexFileById c.files f final db.files).Reachable (st, j)) (hj : j.isOver = true) :
      Leaves c db (.index f final) { db with files := st }
  | ragEval {i : Golden.RunId} {g : Golden.Db} {pc : Golden.RunPc}
      (h : (Golden.processRun i db.golden).Reachable (g, pc)) (hpc : pc.isOver = true) :
      Leaves c db (.ragEval i) { db with golden := g }

/-! ## The bodies that look -/

section

variable {c : Settings} {db : Db}

/-- `process_adapter` ends where it has loaded a terminal row. -/
theorem adapter_idle {a : Adapters.AdapterId} {s : Adapters.State} (ht : Terminal db (.adapter a))
    (h : (processAdapter c.adapters a db.adapters).Reachable s) :
    s.adapters = db.adapters.adapters ∧ (s.worker = none ∨ s.worker = some (a, .load)) := by
  obtain ⟨r, hr, hst⟩ := ht
  refine h.invariant (P := fun s ↦ s.adapters = db.adapters.adapters ∧
    (s.worker = none ∨ s.worker = some (a, .load))) ⟨rfl, .inr rfl⟩ ?_
  rintro s e s' ⟨hrows, hw⟩ - hn
  rcases hw with hw | hw
  · simp [processAdapter, hw] at hn
  · simp only [processAdapter, hw, Option.bind_some] at hn
    cases e with
    | loaded =>
        simp only [Adapters.State.job, hrows, hr, if_pos hst, Option.some.injEq] at hn
        rw [← hn]
        exact ⟨hrows, .inl rfl⟩
    | raised | cancel =>
        cases hn
        exact ⟨hrows, .inl rfl⟩
    | commit o => cases o <;> cases hn
    | datasetRead | converted | probed | rowsRead | scored => cases hn

/-- Where an index job on a terminal row can be. -/
def Idle (j : Files.IndexJob) : Prop :=
  j.isOver = true ∨ j = .failSelect ∨ ∃ final, j = .attempt final .lookup

theorem idle_timedOut (final : Bool) : Idle (Files.IndexJob.timedOut final) := by
  cases final with
  | true => exact .inr (.inl rfl)
  | false => exact .inr (.inr ⟨true, rfl⟩)

/-- `index_file_by_id` ends where it has read a terminal row, and so does `_fail_file`. -/
theorem index_idle {f : Files.FileId} {final : Bool} {x : Files.Stores × Files.IndexJob}
    (ht : Terminal db (.index f final))
    (h : (indexFileById c.files f final db.files).Reachable x) : x.1 = db.files ∧ Idle x.2 := by
  obtain ⟨r, hr, hst⟩ := ht
  have htr : r.status.transient = false := by rcases hst with hst | hst <;> rw [hst] <;> rfl
  apply h.invariant (P := fun x ↦ x.1 = db.files ∧ Idle x.2) ⟨rfl, .inr (.inr ⟨final, rfl⟩)⟩
  rintro ⟨st, j⟩ e x' ⟨rfl, hj⟩ - hn
  rcases hj with hj | rfl | ⟨final, rfl⟩
  · simp [indexFileById, Files.IndexJob.step, hj] at hn
  · cases e with
    | ok =>
        simp [indexFileById, Files.IndexJob.step, Files.IndexJob.isOver, Files.IndexJob.parsing,
          Files.IndexJob.effect, Files.IndexJob.resume, hr, htr] at hn
        rw [← hn]
        exact ⟨rfl, .inl rfl⟩
    | raised e b =>
        cases hn
        exact ⟨by cases b <;> rfl, .inl rfl⟩
    | cancel b =>
        cases hn
        exact ⟨by cases b <;> rfl, .inl rfl⟩
    | parsed | deadline => cases hn
  · cases e with
    | ok =>
        simp [indexFileById, Files.IndexJob.step, Files.IndexJob.isOver, Files.IndexJob.parsing,
          Files.IndexJob.effect, Files.IndexPc.effect, Files.IndexJob.resume, Files.IndexPc.resume,
          Files.IndexJob.settle, hr, htr] at hn
        rw [← hn]
        exact ⟨rfl, .inl rfl⟩
    | raised e b =>
        cases hn
        refine ⟨by cases b <;> rfl, ?_⟩
        simp only [Files.IndexJob.afterRaise, Files.IndexPc.afterRaise, Files.IndexJob.settle]
        split
        · exact idle_timedOut final
        · exact .inl rfl
    | deadline b =>
        cases hn
        exact ⟨by cases b <;> rfl, idle_timedOut final⟩
    | cancel b =>
        cases hn
        exact ⟨by cases b <;> rfl, .inl rfl⟩
    | parsed => cases hn

end

/-- **Redelivery is harmless for two of the three bodies.**  On every database, whatever a
second run of a body does leaves its terminal row as it is, in every column, if and only if
the row is not a run of the retrieval gate. -/
theorem harmless_iff (c : Settings) (db : Db) (b : Body) (ht : Terminal db b) :
    (∀ db', Leaves c db b db' → SameRow db db' b) ↔ ∀ i, b ≠ .ragEval i := by
  constructor
  · rintro hsame i rfl
    obtain ⟨r, hr, hst⟩ := ht
    have hrun : r.status ≠ .running := by rcases hst with hst | hst <;> rw [hst] <;> simp
    -- the clock has moved on since the run was finished
    obtain ⟨g, message, hg, hrow⟩ := Golden.reach_rejudged hr hrun (r.finishedAt.getD 0 + 1)
    have heq := hsame _ (.ragEval hg rfl)
    simp only [SameRow, hrow, hr, Option.some.injEq] at heq
    have hfin := congrArg Golden.Run.finishedAt heq
    cases hf : r.finishedAt with
    | none => simp [Golden.failRun, hf] at hfin
    | some t => simp [Golden.failRun, hf] at hfin
  · rintro hb db' hl
    cases hl with
    | adapter h => exact congrFun (adapter_idle ht h).1 _
    | index h => exact congrFun (congrArg Files.Stores.files (index_idle ht h).1) _
    | ragEval => exact absurd rfl (hb _)

/-- A project with a golden set whose gate run has succeeded, with a recall of 1. -/
def judgedDb : Golden.Db where
  runs := [(0, { project := 0, dataset := some 0, status := .succeeded, trigger := "index", k := 5
                 nQuestions := some 1, recallAtK := some 1, mrr := some 1, p50Ms := some 12
                 baselineRecall := none, delta := none, regression := false, questions := some []
                 error := none, createdAt := 1, finishedAt := some 2 })]
  projects := fun _ ↦ true
  datasets := fun _ ↦ some ⟨0, true, some "golden.jsonl"⟩

/-- The rows of a passed adapter, an indexed file and a finished gate run. -/
def finishedDb : Db where
  adapters := { Adapters.State.init with
    adapters := fun _ ↦ some
      { project := 0, baseModel := "base", format := .gguf, peftDir := none
        ggufPath := some "adapter.gguf", evalDataset := 0, status := .passed
        failureReason := none, evalMetrics := none } }
  files := { Files.Stores.empty with files := fun _ ↦ some ⟨.indexed, none⟩ }
  golden := judgedDb

/-- Settings for the concrete runs. -/
def Settings.sample : Settings where
  adapters := { catalog := [], thresholds := ⟨1 / 100, 9 / 10⟩, adaptersDir := "adapters"
                loraGgufFilename := "adapter.gguf", gateFailed := fun _ ↦ "" }
  files := Files.Config.sample

/-- The hypothesis of `harmless_iff` is met by a passed adapter, which a second run leaves
alone. -/
theorem harmless_finishedDb : Terminal finishedDb (.adapter 0) ∧
    ∀ db', Leaves Settings.sample finishedDb (.adapter 0) db' →
      SameRow finishedDb db' (.adapter 0) := by
  have ht : Terminal finishedDb (.adapter 0) := ⟨_, rfl, .inl rfl⟩
  exact ⟨ht, (harmless_iff Settings.sample finishedDb (.adapter 0) ht).mpr (by simp)⟩

/-- A second run of the gate, whose retrieval finds nothing. -/
def rejudgedRun : List Golden.RunEv :=
  [.loaded, .committed, .projectRead 7, .datasetRead 7, .questionsRead [⟨"q", "a.md", none⟩],
    .counted 3 7, .settingRead, .retrieved [] 12, .previousRead 8, .committed]

/-- A finished run of the gate with a recall of 1 is judged again, and has a recall of 0. -/
theorem rejudgedRun_changes_recall : Terminal finishedDb (.ragEval 0) ∧
    ∃ db', Leaves Settings.sample finishedDb (.ragEval 0) db' ∧
      (finishedDb.golden.run 0).map Golden.Run.recallAtK = some (some 1) ∧
      (db'.golden.run 0).map Golden.Run.recallAtK = some (some 0) ∧
      ¬SameRow finishedDb db' (.ragEval 0) := by
  obtain ⟨⟨g, pc⟩, hg, hr⟩ := System.Reach.of_exec (S := Golden.processRun 0 judgedDb)
    (g := fun _ _ ↦ True) (l := rejudgedRun)
    (f := fun x ↦ ((x.1.run 0).map Golden.Run.recallAtK, x.2)) (b := (some (some 0), .returned))
    (by with_unfolding_all decide)
  obtain ⟨hrec, rfl⟩ := Prod.mk.inj hr
  refine ⟨⟨_, rfl, .inl rfl⟩, { finishedDb with golden := g }, .ragEval hg rfl, by decide, hrec,
    ?_⟩
  intro hs
  have hold : (judgedDb.run 0).map Golden.Run.recallAtK = some (some 1) := by decide
  have hsame : g.run 0 = judgedDb.run 0 := hs
  rw [hsame, hold] at hrec
  exact absurd hrec (by decide)

end Body

end Adapta.Jobs
