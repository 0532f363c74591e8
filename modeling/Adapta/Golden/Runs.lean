import Mathlib.Data.List.Sort
import Adapta.Lib.Rounding
import Adapta.Lib.System
import Adapta.Lib.UnitOfWork

/-!
# The retrieval gate

A project's golden set is a list of questions with the file that answers each.  A run of the
gate retrieves every question, scores the ranks, and judges the score against the runs
before it (`adapta/services/golden.py`).  This module has the scoring and `process_run`, the
body of a `rag_eval` job, as a program with one counter for each await.

## What is abstracted

* Scores and times are rationals, and `round` rounds halves to even.
* The golden set's file, the chunk count, the settings and the retrieval are the event's:
  they may be anything at any time, and may raise.
* `created_at` and `finished_at` are numbers.  Runs created at the same moment are ordered
  as they stand in the table.
-/

namespace Adapta.Golden

open Lib

/-! ## Scores -/

def goldenK : Nat := 5

def baselineRuns : Nat := 3

def regressionFloor : Rat := 5 / 100

/-- `statistics.median`, which needs a non-empty list. -/
def median (l : List Rat) : Rat :=
  let sorted := l.insertionSort (· ≤ ·)
  let n := sorted.length
  if n % 2 = 1 then sorted.getD (n / 2) 0
  else (sorted.getD (n / 2 - 1) 0 + sorted.getD (n / 2) 0) / 2

/-- The 1-based rank of the first chunk from `expected`. -/
def firstRank (sources : List String) (expected : String) : Option Nat :=
  (sources.findIdx? (· = expected)).map (· + 1)

/-- A line of the golden set. -/
structure Question where
  q : String
  expectedFile : String
  lang : Option String
deriving DecidableEq, Repr

/-- A question that was retrieved. -/
structure Ranked extends Question where
  rank : Option Nat
  ms : Rat
deriving DecidableEq

/-- The rank is at most `k`. -/
def Ranked.hit (k : Nat) (r : Ranked) : Bool := r.rank.any (· ≤ k)

structure Stats where
  n : Nat
  recallAtK : Rat
  mrr : Rat
  p50Ms : Rat
deriving DecidableEq

def summarize (rows : List Ranked) (k : Nat) : Stats :=
  let n := rows.length
  let hits := rows.countP (Ranked.hit k)
  let rr := (rows.filterMap fun r ↦ r.rank.map fun i ↦ (1 : Rat) / i).sum
  { n := n
    recallAtK := if n = 0 then 0 else hits / n
    mrr := if n = 0 then 0 else rr / n
    p50Ms := if n = 0 then 0 else median (rows.map Ranked.ms) }

/-- The baseline, the difference and whether it is a regression. -/
def judge (recallAtK : Rat) (n : Nat) (previous : List Rat) : Option Rat × Option Rat × Bool :=
  let window := previous.take baselineRuns
  if window = [] ∨ n = 0 then (none, none, false)
  else
    let baseline := median window
    let delta := roundTo (recallAtK - baseline) 4
    let threshold := max regressionFloor (1 / n)
    (some (roundTo baseline 4), some delta, -delta > threshold + 1 / 10 ^ 9)

/-! ## Rows -/

abbrev RunId := Nat
abbrev ProjectId := Nat
abbrev DatasetId := Nat

inductive RunStatus where
  | queued
  | running
  | succeeded
  | failed
deriving DecidableEq, Repr

/-- An entry of the `questions` column. -/
structure Result where
  question : Question
  rank : Option Nat
  hit : Bool
  ms : Rat
deriving DecidableEq

/-- A row of `rag_eval_runs`, without its id. -/
structure Run where
  project : ProjectId
  dataset : Option DatasetId
  status : RunStatus
  trigger : String
  k : Nat
  nQuestions : Option Nat
  recallAtK : Option Rat
  mrr : Option Rat
  p50Ms : Option Rat
  baselineRecall : Option Rat
  delta : Option Rat
  regression : Bool
  questions : Option (List Result)
  error : Option String
  createdAt : Nat
  finishedAt : Option Nat
deriving DecidableEq

/-- The row after a flush, of the columns `process_run` assigns. -/
def Run.flush (o : Tracked Run) (cur : Run) : Run :=
  { cur with
    status := flushField o.saved.status o.now.status cur.status
    nQuestions := flushField o.saved.nQuestions o.now.nQuestions cur.nQuestions
    recallAtK := flushField o.saved.recallAtK o.now.recallAtK cur.recallAtK
    mrr := flushField o.saved.mrr o.now.mrr cur.mrr
    p50Ms := flushField o.saved.p50Ms o.now.p50Ms cur.p50Ms
    baselineRecall := flushField o.saved.baselineRecall o.now.baselineRecall cur.baselineRecall
    delta := flushField o.saved.delta o.now.delta cur.delta
    regression := flushField o.saved.regression o.now.regression cur.regression
    questions := flushField o.saved.questions o.now.questions cur.questions
    error := flushField o.saved.error o.now.error cur.error
    finishedAt := flushField o.saved.finishedAt o.now.finishedAt cur.finishedAt }

structure Dataset where
  project : ProjectId
  /-- The status is `valid`. -/
  valid : Bool
  storagePath : Option String
deriving DecidableEq, Repr

/-- The tables a run reads. -/
structure Db where
  runs : List (RunId × Run)
  projects : ProjectId → Bool
  datasets : DatasetId → Option Dataset

namespace Db

variable (db : Db) (i : RunId)

def run : Option Run := db.runs.lookup i

def setRun (r : Run) : Db :=
  { db with runs := db.runs.map fun x ↦ if x.1 = i then (i, r) else x }

/-- The flush of a run object; `none` if its `UPDATE` matches no row. -/
def writeRun (o : Tracked Run) : Option Db :=
  if o.now = o.saved then some db else (db.run i).map fun cur ↦ db.setRun i (cur.flush o)

/-- The recalls of the last runs of the same set that have one, without `i`. -/
def previous (p : ProjectId) (d : DatasetId) : List Rat :=
  let found := db.runs.filter fun x ↦
    x.2.project = p ∧ x.2.dataset = some d ∧ x.2.status = .succeeded ∧ x.2.recallAtK.isSome ∧ x.1 ≠ i
  ((found.insertionSort fun x y ↦ y.2.createdAt ≤ x.2.createdAt).take baselineRuns).filterMap
    fun x ↦ x.2.recallAtK

end Db

theorem Db.run_setRun {db : Db} {i : RunId} {r₀ : Run} (h : db.run i = some r₀) (r : Run) :
    (db.setRun i r).run i = some r := by
  simp only [Db.run, Db.setRun] at h ⊢
  generalize db.runs = runs at h
  induction runs with
  | nil => cases h
  | cons x l ih =>
      obtain ⟨k, y⟩ := x
      by_cases hk : k = i
      · simp [hk]
      · have hne : (i == k) = false := by simpa using fun he : i = k ↦ hk he.symm
        rw [List.lookup_cons, hne] at h
        simp only [List.map_cons, hk, if_false, List.lookup_cons, hne]
        exact ih h

/-- A flush of an object with changes. -/
theorem Db.writeRun_of_ne {db : Db} {i : RunId} {r : Run} {o : Tracked Run}
    (h : db.run i = some r) (ho : o.now ≠ o.saved) :
    db.writeRun i o = some (db.setRun i (r.flush o)) := by
  rw [Db.writeRun, if_neg ho, h]
  rfl

/-! ## The job -/

/-- The await points of `process_run`, with its session object `o`. -/
inductive RunPc where
  /-- The `SELECT` of the run. -/
  | load
  /-- The commit of `running`. -/
  | startCommit (o : Tracked Run)
  /-- The `SELECT`s of the project and of the dataset. -/
  | project (o : Tracked Run)
  | dataset (o : Tracked Run) (d : DatasetId) (found : Bool)
  /-- `load_questions`, on a thread. -/
  | questions (o : Tracked Run) (d : DatasetId)
  /-- `count_project_chunks`. -/
  | count (o : Tracked Run) (d : DatasetId) (qs : List Question)
  /-- `resolve_setting`. -/
  | setting (o : Tracked Run) (d : DatasetId) (qs : List Question)
  /-- `retrieve`, on a thread, for `q`; `rows` are done. -/
  | retrieve (o : Tracked Run) (d : DatasetId) (q : Question) (todo : List Question)
      (rows : List Ranked)
  /-- The `SELECT` of the earlier recalls. -/
  | previous (o : Tracked Run) (d : DatasetId) (rows : List Ranked)
  /-- The last commit: of the result, or of `_fail`. -/
  | endCommit (o : Tracked Run)
  | returned
  | raised
  | cancelled
deriving DecidableEq

/-- An event of the job; `now` is the clock where the code reads it. -/
inductive RunEv where
  | loaded
  /-- A commit returns, or raises; the server may have executed it then. -/
  | committed
  | commitError (applied : Bool)
  | projectRead (now : Nat)
  | datasetRead (now : Nat)
  | questionsRead (qs : List Question)
  /-- `load_questions` raises an `InvalidRequest` with its message, or an `OSError`. -/
  | questionsError (message : Option String) (now : Nat)
  | counted (chunks : Nat) (now : Nat)
  /-- `resolve_setting` returns or raises, which the code swallows. -/
  | settingRead
  | retrieved (sources : List String) (ms : Rat)
  | retrieveError (now : Nat)
  | previousRead (now : Nat)
  /-- Any other exception of the awaited call. -/
  | raise
  /-- The worker is cancelled; an awaited commit may have been executed. -/
  | cancel (applied : Bool)
deriving DecidableEq

def goldenSetGone : String := "The golden set no longer exists. Set it again."

def goldenSetUnreadable : String := "The golden set could not be read."

def noDocuments : String := "No indexed documents to retrieve from. Index documents first."

def retrievalFailed : String :=
  "Retrieval failed during the run. Check GET /health/deep and run it again."

/-- The assignment at the start of a run. -/
def startRun (r : Run) : Run := { r with status := .running }

/-- The assignments of `_fail`. -/
def failRun (message : String) (now : Nat) (r : Run) : Run :=
  { r with status := .failed, error := some message, finishedAt := some now }

/-- `_fail`, up to its commit. -/
def RunPc.fail (o : Tracked Run) (message : String) (now : Nat) : RunPc :=
  .endCommit (o.assign (failRun message now))

/-- The assignments of a scored run. -/
def finishRun (rows : List Ranked) (previous : List Rat) (now : Nat) (r : Run) : Run :=
  let stats := summarize rows goldenK
  let (baseline, delta, regression) := judge stats.recallAtK stats.n previous
  { r with
    nQuestions := some stats.n
    recallAtK := some (roundTo stats.recallAtK 4)
    mrr := some (roundTo stats.mrr 4)
    p50Ms := some (roundTo stats.p50Ms 1)
    baselineRecall := baseline
    delta := delta
    regression := regression
    questions := some (rows.map fun x ↦
      { question := x.toQuestion, rank := x.rank, hit := x.hit goldenK, ms := roundTo x.ms 1 })
    status := .succeeded
    finishedAt := some now }

/-- The loop over the questions. -/
def RunPc.loop (o : Tracked Run) (d : DatasetId) (rows : List Ranked) : List Question → RunPc
  | [] => .previous o d rows
  | q :: todo => .retrieve o d q todo rows

namespace RunPc

/-- The object whose commit is awaited. -/
def flushing : RunPc → Option (Tracked Run)
  | .startCommit o | .endCommit o => some o
  | _ => none

/-- Where the job goes on after a commit. -/
def afterCommit : RunPc → RunPc
  | .startCommit o => .project o.committed
  | _ => .returned

/-- The job is over. -/
def isOver : RunPc → Bool
  | .returned | .raised | .cancelled => true
  | _ => false

/-- An exception of the awaited call leaves the job; those of the setting and of the
retrieval are caught. -/
def raises : RunPc → Bool
  | .load | .project _ | .dataset _ _ _ | .questions _ _ | .count _ _ _ | .previous _ _ _ => true
  | _ => false

/-- The tables after a commit that may have been executed. -/
def mayWrite (db : Db) (i : RunId) (applied : Bool) (pc : RunPc) : Db :=
  match pc.flushing, applied with
  | some o, true => (db.writeRun i o).getD db
  | _, _ => db

/-- One event of the job of run `i`. -/
def step (db : Db) (i : RunId) (pc : RunPc) : RunEv → Option (Db × RunPc)
  | .loaded =>
      match pc with
      | .load =>
          match db.run i with
          | none => some (db, .returned)
          | some r => some (db, .startCommit ((Tracked.load r).assign startRun))
      | _ => none
  | .committed =>
      pc.flushing.map fun o ↦
        match db.writeRun i o with
        | some db' => (db', pc.afterCommit)
        | none => (db, .raised)
  | .commitError applied => pc.flushing.map fun _ ↦ (pc.mayWrite db i applied, .raised)
  | .projectRead now =>
      match pc with
      | .project o =>
          let found := db.projects o.now.project
          match o.now.dataset with
          | some d => some (db, .dataset o d found)
          | none => some (db, .fail o goldenSetGone now)
      | _ => none
  | .datasetRead now =>
      match pc with
      | .dataset o d found =>
          if found ∧ ((db.datasets d).bind Dataset.storagePath).any (· ≠ "") then
            some (db, .questions o d)
          else some (db, .fail o goldenSetGone now)
      | _ => none
  | .questionsRead qs =>
      match pc with
      | .questions o d => some (db, .count o d qs)
      | _ => none
  | .questionsError message now =>
      match pc with
      | .questions o _ => some (db, .fail o (message.getD goldenSetUnreadable) now)
      | _ => none
  | .counted chunks now =>
      match pc with
      | .count o d qs => some (db, if chunks = 0 then .fail o noDocuments now else .setting o d qs)
      | _ => none
  | .settingRead =>
      match pc with
      | .setting o d qs => some (db, .loop o d [] qs)
      | _ => none
  | .retrieved sources ms =>
      match pc with
      | .retrieve o d q todo rows =>
          let row := { toQuestion := q, rank := firstRank sources q.expectedFile, ms := ms }
          some (db, .loop o d (rows ++ [row]) todo)
      | _ => none
  | .retrieveError now =>
      match pc with
      | .retrieve o _ _ _ _ => some (db, .fail o retrievalFailed now)
      | _ => none
  | .previousRead now =>
      match pc with
      | .previous o d rows =>
          some (db, .endCommit (o.assign (finishRun rows (db.previous i o.now.project d) now)))
      | _ => none
  | .raise => if pc.raises then some (db, .raised) else none
  | .cancel applied => if pc.isOver then none else some (pc.mayWrite db i applied, .cancelled)

end RunPc

/-- The job of run `i`, by itself, on a given database. -/
def processRun (i : RunId) (db : Db) : System (Db × RunPc) RunEv :=
  ⟨(db, .load), fun x e ↦ x.2.step x.1 i e⟩

/-! ## A second run -/

section

variable {db : Db} {i : RunId} {r : Run}

/-- Whatever the status of the run is, it is set to `running`. -/
theorem reach_project (h : db.run i = some r) (hr : r.status ≠ .running) :
    (processRun i db).Reachable
      (db.setRun i (startRun r), .project (.load (startRun r))) := by
  let o := (Tracked.load r).assign startRun
  have ho : o.now ≠ o.saved := fun he ↦ hr (congrArg Run.status he).symm
  have hflush : r.flush o = startRun r := by
    simp [Run.flush, o, Tracked.assign, Tracked.load, startRun]
  refine .step (s := (db, .startCommit o)) (a := .committed)
    (.step (a := .loaded) .init trivial ?_) trivial ?_
  · simp [processRun, RunPc.step, h, o]
  · simp only [processRun, RunPc.step, RunPc.flushing, Option.map_some,
      Db.writeRun_of_ne h ho, hflush]
    rfl

/-- A failure after that is committed, with the time it is noticed at. -/
theorem reach_failed {now : Nat} {db' : Db} {message : String} (h : db'.run i = some r)
    (hr : r.status = .running)
    (hreach : (processRun i db).Reachable (db', .fail (.load r) message now)) :
    ∃ db'', (processRun i db).Reachable (db'', .returned) ∧
      db''.run i = some (failRun message now r) := by
  have hne : failRun message now r ≠ r := fun he ↦ by
    have hst := congrArg Run.status he
    rw [hr] at hst
    cases hst
  have hflush : r.flush ((Tracked.load r).assign (failRun message now)) =
      failRun message now r := by
    simp [Run.flush, Tracked.assign, Tracked.load, failRun]
  refine ⟨db'.setRun i (failRun message now r), .step (a := .committed) hreach trivial ?_,
    Db.run_setRun h _⟩
  simp only [processRun, RunPc.step, RunPc.fail, RunPc.flushing, Option.map_some,
    Db.writeRun_of_ne h (o := (Tracked.load r).assign (failRun message now)) hne, hflush]
  rfl

/-- **A run is judged again**, in whatever status it is: there is an execution that returns
and leaves the run failed, at any time `now`. -/
theorem reach_rejudged (h : db.run i = some r) (hr : r.status ≠ .running) (now : Nat) :
    ∃ db' message, (processRun i db).Reachable (db', .returned) ∧
      db'.run i = some (failRun message now (startRun r)) := by
  have hp := reach_project h hr
  have hrun := Db.run_setRun h (startRun r)
  have hfail : ∀ message, (processRun i db).Reachable
      (db.setRun i (startRun r), .fail (.load (startRun r)) message now) →
      ∃ db' message, (processRun i db).Reachable (db', .returned) ∧
        db'.run i = some (failRun message now (startRun r)) := by
    intro message hreach
    obtain ⟨db', hdb', hr'⟩ := reach_failed hrun rfl hreach
    exact ⟨db', message, hdb', hr'⟩
  cases hd : (startRun r).dataset with
  | none =>
      refine hfail goldenSetGone (.step (a := .projectRead now) hp trivial ?_)
      simp [processRun, RunPc.step, Tracked.load, hd]
  | some d =>
      have hds : (processRun i db).Reachable (db.setRun i (startRun r),
          .dataset (.load (startRun r)) d (db.projects (startRun r).project)) := by
        refine .step (a := .projectRead now) hp trivial ?_
        simp [processRun, RunPc.step, Tracked.load, hd, Db.setRun]
      by_cases hfound : db.projects (startRun r).project = true ∧
          ((db.datasets d).bind Dataset.storagePath).any (· ≠ "") = true
      · -- the set is there, and its file is gone
        have hqs : (processRun i db).Reachable
            (db.setRun i (startRun r), .questions (.load (startRun r)) d) := by
          refine .step (a := .datasetRead now) hds trivial ?_
          simp only [processRun, RunPc.step, Db.setRun, if_pos hfound]
        exact hfail goldenSetUnreadable
          (.step (a := .questionsError none now) hqs trivial rfl)
      · refine hfail goldenSetGone (.step (a := .datasetRead now) hds trivial ?_)
        simp only [processRun, RunPc.step, Db.setRun, if_neg hfound]

end

end Adapta.Golden
