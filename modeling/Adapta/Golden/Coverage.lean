import Adapta.Files.Rows
import Adapta.Golden.Runs

/-!
# Every indexed file is covered by a run of the gate

After an index job the worker calls `enqueue_after_index` of `adapta/services/golden.py`, which
queues a run of the gate if the project has a golden set, unless a run is queued already: that one
has not started, so it will see the new file.  `POST golden/run` queues runs as well, and
`set_golden_set` changes the set.

The system has one project, the worker with its jobs, the Redis list, and requests that interleave
with the worker at every query, commit and enqueue.  Jobs of other projects take up the worker's
time, which may be any.

A run is committed before its job is enqueued, so that the worker finds the row.  In between a run
is queued that no job is for, and a file that is indexed then is not covered until the request goes
on.  `indexed_covered` is about the states in which no request is at that point.

## What is abstracted

* The index job is that of `Adapta.Files.Index`, and the run that of `Adapta.Golden.Runs`; what
  threads that were left behind do to Chroma is not seen here.
* The commit of an upload and the enqueue of its job are one step, and the statuses that
  `update_status` keeps in Redis are left out.
* The questions of a golden set are read by the run alone, and the kind of a dataset, which
  `set_golden_set` checks too, does not matter here.
* Neither the project nor its datasets and files are deleted.
-/

namespace Adapta.Golden

open Lib
open Files (FileId Stores IndexJob JobEv)

abbrev ReqId := Nat

/-! ## Queueing a run -/

/-- `STALE_RUN_AFTER`, in seconds. -/
def staleRunAfter : Nat := 15 * 60

/-- Who queues a run. -/
structure Caller where
  trigger : String
  /-- A run that is running already does not count. -/
  onlyQueued : Bool
deriving DecidableEq, Repr

/-- `enqueue_after_index`. -/
def Caller.index : Caller := ⟨"index", true⟩

/-- `run_golden`. -/
def Caller.manual : Caller := ⟨"manual", false⟩

/-- The awaits of `enqueue_after_index` and of `run_golden`. -/
inductive GatePc where
  /-- The query for the file that was indexed. -/
  | file (f : FileId)
  | project
  /-- `load_golden_set`. -/
  | dataset (d : DatasetId)
  /-- `active_run`. -/
  | active (d : DatasetId)
  /-- `queue_run`: the commit, the refresh and the enqueue. -/
  | commit (d : DatasetId)
  | refresh (i : RunId)
  | enqueue (i : RunId)
  | ended
deriving DecidableEq, Repr

/-- An entry of the Redis list, with the kind of its job. -/
inductive JobRef where
  | index (f : FileId)
  | ragEval (i : RunId)
deriving DecidableEq, Repr

/-- The job of the worker. -/
inductive Job where
  | index (f : FileId) (j : IndexJob)
  /-- `enqueue_after_index`, in a transaction that started at `start`. -/
  | hook (f : FileId) (start : Nat) (pc : GatePc)
  | ragEval (i : RunId) (pc : RunPc)
deriving DecidableEq

inductive Req where
  | absent
  /-- `run_golden`. -/
  | run (start : Nat) (pc : GatePc)
  /-- `set_golden_set` before its commit; `path` if it stores a new set. -/
  | setting (d : DatasetId) (path : Option String)
  | ended
deriving DecidableEq, Repr

structure State where
  now : Nat
  stores : Stores
  db : Db
  /-- `golden_dataset_id`. -/
  golden : Option DatasetId
  nextFile : FileId
  nextRun : RunId
  queue : List JobRef
  worker : Option Job
  reqs : ReqId → Req

inductive Act where
  | tick (seconds : Nat)
  /-- A file is uploaded, and its job enqueued. -/
  | upload
  /-- Another handler stores a dataset. -/
  | dataset (d : DatasetId) (x : Dataset)
  /-- The worker takes the next job. -/
  | dequeue
  | index (e : JobEv)
  /-- The index job has returned, and `enqueue_after_index` is called. -/
  | callHook
  /-- The awaited call of `enqueue_after_index` returns, or raises. -/
  | hook
  | hookError
  | run (e : RunEv)
  /-- The job is over. -/
  | next
  | runGolden (i : ReqId)
  /-- `set_golden_set` with a dataset, which it finds valid, or with a file. -/
  | setGolden (i : ReqId) (d : DatasetId)
  | uploadGolden (i : ReqId) (d : DatasetId) (path : String)
  /-- The awaited call of a request returns, or raises. -/
  | request (i : ReqId)
  | requestError (i : ReqId)
deriving DecidableEq

/-- The project. -/
def theProject : ProjectId := 0

/-- A dataset that `load_golden_set` takes. -/
def Dataset.loadable (x : Dataset) : Bool :=
  x.project = theProject && x.valid && x.storagePath.any (· ≠ "")

/-- `created_at > cutoff`. -/
def Run.fresh (now : Nat) (r : Run) : Bool := now < r.createdAt + staleRunAfter

/-- The statuses a caller looks for. -/
def Caller.counts (caller : Caller) (status : RunStatus) : Bool :=
  status = .queued || !caller.onlyQueued && status = .running

/-- A new row of `queue_run`. -/
def newRun (d : DatasetId) (trigger : String) (start : Nat) : Run :=
  { project := theProject, dataset := some d, status := .queued, trigger := trigger, k := goldenK
    nQuestions := none, recallAtK := none, mrr := none, p50Ms := none, baselineRecall := none
    delta := none, regression := false, questions := none, error := none, createdAt := start
    finishedAt := none }

def Db.status (db : Db) (i : RunId) : Option RunStatus := (db.run i).map Run.status

def Db.insertRun (db : Db) (i : RunId) (r : Run) : Db := { db with runs := db.runs ++ [(i, r)] }

namespace State

def init : State :=
  { now := 0, stores := .empty
    db := { runs := [], projects := fun p ↦ p = theProject, datasets := fun _ ↦ none }
    golden := none, nextFile := 0, nextRun := 0, queue := [], worker := none
    reqs := fun _ ↦ .absent }

variable (s : State)

/-- The dataset is one that `load_golden_set` takes. -/
def loadable (d : DatasetId) : Bool := (s.db.datasets d).any Dataset.loadable

/-- The project has a valid golden set. -/
def hasGolden : Bool := s.golden.any s.loadable

/-- The file is indexed. -/
def indexed (f : FileId) : Bool := (s.stores.files f).any fun r ↦ r.status = .indexed

/-- `active_run` finds a run. -/
def activeRun (caller : Caller) : Bool :=
  s.db.runs.any fun x ↦
    x.2.project = theProject && caller.counts x.2.status && x.2.fresh s.now

/-- The awaited call returns; `start` is when the transaction of the caller started. -/
def gate (caller : Caller) (start : Nat) : GatePc → Option (State × GatePc)
  | .file f => some (s, if s.indexed f then .project else .ended)
  | .project =>
      match s.golden with
      | some d => some (s, .dataset d)
      | none => some (s, .ended)
  | .dataset d => some (s, if s.loadable d then .active d else .ended)
  | .active d => some (s, if s.activeRun caller then .ended else .commit d)
  | .commit d =>
      some ({ s with
        db := s.db.insertRun s.nextRun (newRun d caller.trigger start)
        nextRun := s.nextRun + 1 }, .refresh s.nextRun)
  | .refresh i => some (s, .enqueue i)
  | .enqueue i => some ({ s with queue := s.queue ++ [.ragEval i] }, .ended)
  | .ended => none

def setReq (i : ReqId) (q : Req) : State := { s with reqs := Function.update s.reqs i q }

/-- The awaited call of a request returns. -/
def request (i : ReqId) : Option State :=
  match s.reqs i with
  | .run start pc => (s.gate .manual start pc).map fun x ↦ x.1.setReq i (.run start x.2)
  | .setting d none => some ({ s with golden := some d }.setReq i .ended)
  | .setting d (some path) =>
      -- the id is new
      if s.db.datasets d = none then
        let datasets := Function.update s.db.datasets d (some ⟨theProject, true, some path⟩)
        some ({ s with db := { s.db with datasets := datasets }, golden := some d }.setReq i .ended)
      else none
  | .absent | .ended => none

end State

/-- The job of an entry. -/
def JobRef.start : JobRef → Job
  | .index f => .index f (.attempt false .lookup)
  | .ragEval i => .ragEval i .load

/-- The job has ended, and nothing follows it. -/
def Job.isOver : Job → Bool
  | .index _ j => j.isOver && j ≠ .returned
  | .hook _ _ pc => pc = .ended
  | .ragEval _ pc => pc.isOver

/-- One step of the system. -/
def step (c : Files.Config) (s : State) : Act → Option State
  | .tick seconds => some { s with now := s.now + seconds }
  | .upload => some
      { s with
        stores := s.stores.setFile s.nextFile (some ⟨.pending, none⟩)
        nextFile := s.nextFile + 1
        queue := s.queue ++ [.index s.nextFile] }
  | .dataset d x =>
      if s.db.datasets d = none then
        some { s with db := { s.db with datasets := Function.update s.db.datasets d (some x) } }
      else none
  | .dequeue =>
      match s.worker, s.queue with
      | none, job :: rest => some { s with worker := some job.start, queue := rest }
      | _, _ => none
  | .index e =>
      match s.worker with
      | some (.index f j) => (j.step c f s.stores false e).map fun x ↦
          { s with stores := x.1, worker := some (.index f x.2) }
      | _ => none
  | .callHook =>
      match s.worker with
      | some (.index f .returned) => some { s with worker := some (.hook f s.now (.file f)) }
      | _ => none
  | .hook =>
      match s.worker with
      | some (.hook f start pc) => (s.gate .index start pc).map fun x ↦
          { x.1 with worker := some (.hook f start x.2) }
      | _ => none
  | .hookError =>
      match s.worker with
      | some (.hook f start _) => some { s with worker := some (.hook f start .ended) }
      | _ => none
  | .run e =>
      match s.worker with
      | some (.ragEval i pc) => (pc.step s.db i e).map fun x ↦
          { s with db := x.1, worker := some (.ragEval i x.2) }
      | _ => none
  | .next => if s.worker.any Job.isOver then some { s with worker := none } else none
  | .runGolden i =>
      if s.reqs i = .absent then some (s.setReq i (.run s.now .project)) else none
  | .setGolden i d =>
      if s.reqs i = .absent ∧ s.loadable d then some (s.setReq i (.setting d none)) else none
  | .uploadGolden i d path =>
      if s.reqs i = .absent ∧ path ≠ "" then some (s.setReq i (.setting d (some path))) else none
  | .request i => s.request i
  | .requestError i => if s.reqs i = .absent then none else some (s.setReq i .ended)

/-! ## Statement -/

/-- What a run of the system is remembered for. -/
inductive Event where
  /-- The file is committed as indexed. -/
  | indexed (f : FileId)
  /-- `enqueue_after_index` is called; `owed` if the file is indexed and there is a golden set. -/
  | called (f : FileId) (owed : Bool)
  /-- `process_run` sets the run to running. -/
  | started (i : RunId)
deriving DecidableEq, Repr

/-- The events of a step. -/
def eventOf (c : Files.Config) (s : State) (a : Act) : Option Event :=
  match a, s.worker with
  | .index _, some (.index f _) =>
      if !s.indexed f && (step c s a).any fun s' ↦ s'.indexed f then some (.indexed f) else none
  | .callHook, some (.index f _) => some (.called f (s.indexed f && s.hasGolden))
  | .run .committed, some (.ragEval i (.startCommit _)) =>
      if (step c s a).any fun s' ↦ s'.db.status i = some .running then some (.started i) else none
  | _, _ => none

/-- The newest event first. -/
def observe (c : Files.Config) (s : State) (a : Act) (log : List Event) : List Event :=
  (eventOf c s a).toList ++ log

/-- Index jobs, runs of the gate and the requests that queue them. -/
def system (c : Files.Config) : System (State × List Event) Act :=
  System.ghost ⟨.init, step c⟩ [] (observe c)

/-- No crash, and no error of Redis or Postgres while runs are queued and started. -/
def healthy : Act → Bool
  | .hookError | .requestError _ => false
  | .run (.commitError _) | .run .raise | .run (.cancel _) => false
  | _ => true

def Healthy (_ : State × List Event) (a : Act) : Prop := healthy a = true

instance (x : State × List Event) (a : Act) : Decidable (Healthy x a) :=
  inferInstanceAs (Decidable (healthy a = true))

/-- The request has committed a run, and not yet enqueued its job. -/
def Req.queueing : Req → Bool
  | .run _ (.refresh _) | .run _ (.enqueue _) => true
  | _ => false

/-- After the commit of every file for which the hook was called, with a golden set, a run was
started. -/
def Covered (log : List Event) : Prop :=
  ∀ f later earlier, log = later ++ .called f true :: earlier →
    ∃ between before, earlier = between ++ .indexed f :: before ∧ .indexed f ∉ between ∧
      ∃ i, .started i ∈ later ++ between

/-! ## Rows of runs -/

section Rows

variable {db db' : Db} {i j : RunId} {r : Run} {o : Tracked Run} {pc pc' : RunPc} {e : RunEv}

theorem Db.run_setRun_ne (hj : j ≠ i) : (db.setRun i r).run j = db.run j := by
  simp only [Db.run, Db.setRun]
  induction db.runs with
  | nil => rfl
  | cons x l ih =>
      obtain ⟨k, y⟩ := x
      by_cases hk : k = i
      · subst hk
        have hne : (j == k) = false := by simpa using hj
        simp only [List.map_cons, if_true, List.lookup_cons, hne]
        exact ih
      · simp only [List.map_cons, hk, if_false, List.lookup_cons, ih]

theorem Db.keys_setRun : (db.setRun i r).runs.map Prod.fst = db.runs.map Prod.fst := by
  simp only [Db.setRun, List.map_map]
  congr 1
  funext x
  by_cases hx : x.1 = i
  · simp [hx]
  · simp [hx]

theorem Db.keys_writeRun (h : db.writeRun i o = some db') :
    db'.runs.map Prod.fst = db.runs.map Prod.fst := by
  rw [Db.writeRun] at h
  split at h
  · cases h
    rfl
  · obtain ⟨cur, -, rfl⟩ := Option.map_eq_some_iff.mp h
    exact Db.keys_setRun

theorem Db.run_of_mem (hn : (db.runs.map Prod.fst).Nodup) (h : (i, r) ∈ db.runs) :
    db.run i = some r := by
  obtain ⟨l₁, l₂, hl⟩ := List.append_of_mem h
  refine List.lookup_eq_some_iff.mpr ⟨l₁, l₂, hl, ?_⟩
  intro x hx
  rw [hl, List.map_append, List.map_cons, List.nodup_append] at hn
  have hne := hn.2.2 x.1 (List.mem_map_of_mem hx) i List.mem_cons_self
  simpa using Ne.symm hne

theorem Db.mem_of_run (h : db.run i = some r) : (i, r) ∈ db.runs := by
  obtain ⟨l₁, l₂, hl, -⟩ := List.lookup_eq_some_iff.mp h
  rw [hl]
  exact List.mem_append_right _ List.mem_cons_self

theorem Db.status_of_run {status : RunStatus}
    (hrun : ∀ r, db.run i = some r → db'.run i = some r) (h : db.status i = some status) :
    db'.status i = some status := by
  obtain ⟨r, hr, hstatus⟩ := Option.map_eq_some_iff.mp h
  exact Option.map_eq_some_iff.mpr ⟨r, hrun r hr, hstatus⟩

theorem Db.status_setRun (hr : db.run i = some r) {r' : Run} :
    (db.setRun i r').status j = if j = i then some r'.status else db.status j := by
  by_cases hj : j = i
  · subst hj
    rw [if_pos rfl, Db.status, Db.run_setRun hr]
    rfl
  · rw [if_neg hj, Db.status, Db.run_setRun_ne hj]
    rfl

/-- A flush writes one run, and leaves its status or sets the one assigned. -/
theorem Db.status_writeRun (h : db.writeRun i o = some db') :
    db'.status j = if j = i then
      (db.status i).map (flushField o.saved.status o.now.status) else db.status j := by
  rw [Db.writeRun] at h
  split at h
  · next ho =>
      cases h
      rw [ho, funext (flushField_same o.saved.status), Option.map_id']
      by_cases hj : j = i
      · rw [if_pos hj, hj]
      · rw [if_neg hj]
  · obtain ⟨cur, hcur, rfl⟩ := Option.map_eq_some_iff.mp h
    have hstatus : db.status i = some cur.status := congrArg (Option.map Run.status) hcur
    rw [Db.status_setRun hcur, hstatus]
    rfl

theorem Db.datasets_writeRun (h : db.writeRun i o = some db') : db'.datasets = db.datasets := by
  rw [Db.writeRun] at h
  split at h
  · cases h
    rfl
  · obtain ⟨cur, -, rfl⟩ := Option.map_eq_some_iff.mp h
    rfl

/-- The run has not been set to running. -/
def RunPc.starting : RunPc → Bool
  | .load | .startCommit _ => true
  | _ => false

/-- The run of a job that has set it to running is running, and the session of the job is in step
with it. -/
def RunPc.Ok (db : Db) (i : RunId) : RunPc → Prop
  | .load | .returned | .raised | .cancelled => True
  | .startCommit o => db.run i = some o.saved ∧ o.now = startRun o.saved
  | .endCommit o => o.now.status ≠ .queued ∧ db.status i = some .running
  | _ => db.status i = some .running

/-- What an event of a job does, if nothing fails. -/
inductive RunMove (db : Db) (i : RunId) : RunPc → Db → RunPc → Prop
  | gone (h : db.run i = none) : RunMove db i .load db .returned
  | load {r : Run} (h : db.run i = some r) :
      RunMove db i .load db (.startCommit ((Tracked.load r).assign startRun))
  | start {o : Tracked Run} {db' : Db} (h : db.writeRun i o = some db') :
      RunMove db i (.startCommit o) db' (.project o.committed)
  | stale {o : Tracked Run} (h : db.writeRun i o = none) :
      RunMove db i (.startCommit o) db .raised
  | finish {o : Tracked Run} {db' : Db} (h : db.writeRun i o = some db') :
      RunMove db i (.endCommit o) db' .returned
  | quiet {pc pc' : RunPc} (h : pc.starting = false) (h' : pc'.starting = false)
      (hok : pc.Ok db i → pc'.Ok db i) : RunMove db i pc db pc'

theorem RunPc.Ok.congr (h : pc.Ok db i)
    (hrun : ∀ r, db.run i = some r → db'.run i = some r) : pc.Ok db' i := by
  cases pc with
  | load | returned | raised | cancelled => trivial
  | startCommit o => exact ⟨hrun _ h.1, h.2⟩
  | endCommit o => exact ⟨h.1, Db.status_of_run hrun h.2⟩
  | _ => exact Db.status_of_run hrun h

theorem RunPc.ok_fail {message : String} {now : Nat} (h : db.status i = some .running) :
    (RunPc.fail o message now).Ok db i := by
  refine ⟨?_, h⟩
  intro hq
  cases hq

theorem RunMove.of_step (h : pc.step db i e = some (db', pc')) (he : healthy (.run e) = true) :
    RunMove db i pc db' pc' := by
  cases e with
  | loaded =>
      cases pc <;> try cases h
      simp only [RunPc.step] at h
      split at h
      · next hr =>
          cases h
          exact .gone hr
      · next r hr =>
          cases h
          exact .load hr
  | committed =>
      simp only [RunPc.step] at h
      obtain ⟨o, ho, h⟩ := Option.map_eq_some_iff.mp h
      cases pc <;> cases ho
      · split at h
        · next hw =>
            cases h
            exact .start hw
        · next hw =>
            cases h
            exact .stale hw
      · split at h
        · next hw =>
            cases h
            exact .finish hw
        · cases h
          exact .quiet rfl rfl fun _ ↦ trivial
  | commitError | raise | cancel => cases he
  | projectRead now =>
      cases pc <;> try cases h
      simp only [RunPc.step] at h
      split at h
      · cases h
        exact .quiet rfl rfl id
      · cases h
        exact .quiet rfl rfl fun h ↦ RunPc.ok_fail h
  | datasetRead now =>
      cases pc <;> try cases h
      simp only [RunPc.step] at h
      split at h
      · cases h
        exact .quiet rfl rfl id
      · cases h
        exact .quiet rfl rfl fun h ↦ RunPc.ok_fail h
  | questionsRead qs =>
      cases pc <;> cases h
      exact .quiet rfl rfl id
  | questionsError message now =>
      cases pc <;> cases h
      exact .quiet rfl rfl fun h ↦ RunPc.ok_fail h
  | counted chunks now =>
      cases pc <;> cases h
      split
      · exact .quiet rfl rfl fun h ↦ RunPc.ok_fail h
      · exact .quiet rfl rfl id
  | settingRead =>
      cases pc <;> try cases h
      next o d qs =>
        cases qs with
        | nil => exact .quiet rfl rfl id
        | cons q todo => exact .quiet rfl rfl id
  | retrieved sources ms =>
      cases pc <;> try cases h
      next o d q todo rows =>
        cases todo with
        | nil => exact .quiet rfl rfl id
        | cons q' todo => exact .quiet rfl rfl id
  | retrieveError now =>
      cases pc <;> cases h
      exact .quiet rfl rfl fun h ↦ RunPc.ok_fail h
  | previousRead now =>
      cases pc <;> cases h
      refine .quiet rfl rfl fun h ↦ ⟨?_, h⟩
      intro hq
      cases hq

/-- A job writes its run, and no dataset. -/
theorem RunMove.datasets (h : RunMove db i pc db' pc') : db'.datasets = db.datasets := by
  cases h with
  | gone | load | stale | quiet => rfl
  | start hw | finish hw => exact Db.datasets_writeRun hw

end Rows

/-! ## Queueing -/

variable {c : Files.Config} {s s' t : State} {x : Act} {log : List Event} {i : RunId} {f : FileId}
  {caller : Caller} {start : Nat} {pc pc' : GatePc}

/-- The caller has committed the run, and not yet enqueued its job. -/
def GatePc.Holds (i : RunId) (pc : GatePc) : Prop := pc = .refresh i ∨ pc = .enqueue i

/-- What the awaited call of a caller does. -/
inductive GateMove (s : State) (caller : Caller) (start : Nat) : GatePc → State → GatePc → Prop
  | quiet {pc pc' : GatePc} (h : ∀ i, ¬pc.Holds i) (hc : ∀ d, pc ≠ .commit d)
      (h' : ∀ i, ¬pc'.Holds i) : GateMove s caller start pc s pc'
  | commit {d : DatasetId} : GateMove s caller start (.commit d)
      { s with
        db := s.db.insertRun s.nextRun (newRun d caller.trigger start)
        nextRun := s.nextRun + 1 } (.refresh s.nextRun)
  | refresh {i : RunId} : GateMove s caller start (.refresh i) s (.enqueue i)
  | enqueue {i : RunId} : GateMove s caller start (.enqueue i)
      { s with queue := s.queue ++ [.ragEval i] } .ended

theorem GateMove.of_gate (h : s.gate caller start pc = some (t, pc')) :
    GateMove s caller start pc t pc' := by
  cases pc with
  | file f =>
      cases h
      refine .quiet (by simp [GatePc.Holds]) (by simp) ?_
      split
      · simp [GatePc.Holds]
      · simp [GatePc.Holds]
  | project =>
      simp only [State.gate] at h
      split at h
      · cases h
        exact .quiet (by simp [GatePc.Holds]) (by simp) (by simp [GatePc.Holds])
      · cases h
        exact .quiet (by simp [GatePc.Holds]) (by simp) (by simp [GatePc.Holds])
  | dataset d =>
      cases h
      refine .quiet (by simp [GatePc.Holds]) (by simp) ?_
      split
      · simp [GatePc.Holds]
      · simp [GatePc.Holds]
  | active d =>
      cases h
      refine .quiet (by simp [GatePc.Holds]) (by simp) ?_
      split
      · simp [GatePc.Holds]
      · simp [GatePc.Holds]
  | commit d =>
      cases h
      exact .commit
  | refresh i =>
      cases h
      exact .refresh
  | enqueue i =>
      cases h
      exact .enqueue
  | ended => cases h

/-- A caller writes runs and the queue, and nothing else. -/
theorem GateMove.frame (h : GateMove s caller start pc t pc') :
    t.stores = s.stores ∧ t.golden = s.golden ∧ t.nextFile = s.nextFile ∧ t.worker = s.worker ∧
      t.reqs = s.reqs ∧ t.db.datasets = s.db.datasets := by
  cases h with
  | quiet | commit | refresh | enqueue => exact ⟨rfl, rfl, rfl, rfl, rfl, rfl⟩

theorem Db.run_insertRun {db : Db} {r : Run} {j : RunId} :
    (db.insertRun i r).run j = (db.run j).or (if j = i then some r else none) := by
  simp [Db.run, Db.insertRun, List.lookup_append, List.lookup_cons]
  congr 1
  by_cases hj : j = i
  · simp [hj]
  · have hne : (j == i) = false := by simpa using hj
    simp [hj, hne]

/-! ## Steps -/

/-- What a step does, if nothing fails. -/
inductive Move (c : Files.Config) (s : State) : Act → State → Prop
  | tick {seconds : Nat} : Move c s (.tick seconds) { s with now := s.now + seconds }
  | upload : Move c s .upload
      { s with
        stores := s.stores.setFile s.nextFile (some ⟨.pending, none⟩)
        nextFile := s.nextFile + 1
        queue := s.queue ++ [.index s.nextFile] }
  | dataset {d : DatasetId} {y : Dataset} (hd : s.db.datasets d = none) : Move c s (.dataset d y)
      { s with db := { s.db with datasets := Function.update s.db.datasets d (some y) } }
  | dequeue {job : JobRef} {rest : List JobRef} (hw : s.worker = none)
      (hq : s.queue = job :: rest) : Move c s .dequeue
      { s with worker := some job.start, queue := rest }
  | index {f : FileId} {j j' : IndexJob} {st : Stores} {e : JobEv}
      (hw : s.worker = some (.index f j)) (hj : j.step c f s.stores false e = some (st, j')) :
      Move c s (.index e) { s with stores := st, worker := some (.index f j') }
  | callHook {f : FileId} (hw : s.worker = some (.index f .returned)) : Move c s .callHook
      { s with worker := some (.hook f s.now (.file f)) }
  | hook {f : FileId} {start : Nat} {pc pc' : GatePc} {t : State}
      (hw : s.worker = some (.hook f start pc)) (hgate : s.gate .index start pc = some (t, pc')) :
      Move c s .hook { t with worker := some (.hook f start pc') }
  | run {i : RunId} {pc pc' : RunPc} {db' : Db} {e : RunEv} (hw : s.worker = some (.ragEval i pc))
      (hrun : pc.step s.db i e = some (db', pc')) (he : healthy (.run e) = true) :
      Move c s (.run e) { s with db := db', worker := some (.ragEval i pc') }
  | next (hover : s.worker.any Job.isOver = true) : Move c s .next { s with worker := none }
  | runGolden {j : ReqId} (hj : s.reqs j = .absent) :
      Move c s (.runGolden j) (s.setReq j (.run s.now .project))
  | setGolden {j : ReqId} {d : DatasetId} (hj : s.reqs j = .absent) (hd : s.loadable d = true) :
      Move c s (.setGolden j d) (s.setReq j (.setting d none))
  | uploadGolden {j : ReqId} {d : DatasetId} {path : String} (hj : s.reqs j = .absent)
      (hpath : path ≠ "") : Move c s (.uploadGolden j d path) (s.setReq j (.setting d (some path)))
  | runRequest {j : ReqId} {start : Nat} {pc pc' : GatePc} {t : State}
      (hj : s.reqs j = .run start pc) (hgate : s.gate .manual start pc = some (t, pc')) :
      Move c s (.request j) (t.setReq j (.run start pc'))
  | choose {j : ReqId} {d : DatasetId} (hj : s.reqs j = .setting d none) :
      Move c s (.request j) ({ s with golden := some d }.setReq j .ended)
  | store {j : ReqId} {d : DatasetId} {path : String} (hj : s.reqs j = .setting d (some path))
      (hd : s.db.datasets d = none) : Move c s (.request j)
      ({ s with
        db := { s.db with
          datasets := Function.update s.db.datasets d (some ⟨theProject, true, some path⟩) }
        golden := some d }.setReq j .ended)

theorem Move.of_request {j : ReqId} (hn : s.request j = some s') : Move c s (.request j) s' := by
  simp only [State.request] at hn
  split at hn
  · next start pc hj =>
      obtain ⟨⟨t, pc'⟩, hgate, rfl⟩ := Option.map_eq_some_iff.mp hn
      exact .runRequest hj hgate
  · next d hj =>
      cases hn
      exact .choose hj
  · next d path hj =>
      simp only [Option.ite_none_right_eq_some, Option.some.injEq] at hn
      obtain ⟨hd, rfl⟩ := hn
      exact .store hj hd
  · cases hn
  · cases hn

theorem Move.of_step (hg : healthy x = true) (hn : step c s x = some s') : Move c s x s' := by
  cases x with
  | tick seconds =>
      cases hn
      exact .tick
  | upload =>
      cases hn
      exact .upload
  | dataset d y =>
      simp only [step, Option.ite_none_right_eq_some, Option.some.injEq] at hn
      obtain ⟨hd, rfl⟩ := hn
      exact .dataset hd
  | dequeue =>
      simp only [step] at hn
      split at hn
      · next job rest hw hq =>
          cases hn
          exact .dequeue hw hq
      · cases hn
  | index e =>
      simp only [step] at hn
      split at hn
      · next f j hw =>
          obtain ⟨⟨st, j'⟩, hj, rfl⟩ := Option.map_eq_some_iff.mp hn
          exact .index hw hj
      · cases hn
  | callHook =>
      simp only [step] at hn
      split at hn
      · next f hw =>
          cases hn
          exact .callHook hw
      · cases hn
  | hook =>
      simp only [step] at hn
      split at hn
      · next f start pc hw =>
          obtain ⟨⟨t, pc'⟩, hgate, rfl⟩ := Option.map_eq_some_iff.mp hn
          exact .hook hw hgate
      · cases hn
  | hookError | requestError => cases hg
  | run e =>
      simp only [step] at hn
      split at hn
      · next i pc hw =>
          obtain ⟨⟨db', pc'⟩, hrun, rfl⟩ := Option.map_eq_some_iff.mp hn
          exact .run hw hrun hg
      · cases hn
  | next =>
      simp only [step, Option.ite_none_right_eq_some, Option.some.injEq] at hn
      obtain ⟨hover, rfl⟩ := hn
      exact .next hover
  | runGolden j =>
      simp only [step, Option.ite_none_right_eq_some, Option.some.injEq] at hn
      obtain ⟨hj, rfl⟩ := hn
      exact .runGolden hj
  | setGolden j d =>
      simp only [step, Option.ite_none_right_eq_some, Option.some.injEq] at hn
      obtain ⟨⟨hj, hd⟩, rfl⟩ := hn
      exact .setGolden hj hd
  | uploadGolden j d path =>
      simp only [step, Option.ite_none_right_eq_some, Option.some.injEq] at hn
      obtain ⟨⟨hj, hpath⟩, rfl⟩ := hn
      exact .uploadGolden hj hpath
  | request j => exact .of_request hn

/-! ## Golden sets -/

/-- The set of the project is valid, and so is the one a request is about to choose. -/
structure Sets (s : State) : Prop where
  golden : ∀ d, s.golden = some d → s.loadable d = true
  chosen : ∀ i d, s.reqs i = .setting d none → s.loadable d = true
  stored : ∀ i d path, s.reqs i = .setting d (some path) → path ≠ ""

namespace Sets

protected theorem init : Sets .init where
  golden d h := by cases h
  chosen i d h := by cases h
  stored i d path h := by cases h

/-- Datasets are stored and never changed. -/
theorem frame (h : Sets s) (hgolden : s'.golden = s.golden) (hreqs : s'.reqs = s.reqs)
    (hdata : ∀ d, s.loadable d = true → s'.loadable d = true) : Sets s' where
  golden d hd := hdata d (h.golden d (hgolden ▸ hd))
  chosen i d hd := hdata d (h.chosen i d (hreqs ▸ hd))
  stored i d path hd := h.stored i d path (hreqs ▸ hd)

theorem setReq {q : Req} {j : ReqId} (h : Sets s)
    (hchosen : ∀ d, q = .setting d none → s.loadable d = true)
    (hstored : ∀ d path, q = .setting d (some path) → path ≠ "") : Sets (s.setReq j q) where
  golden := h.golden
  chosen i d hd := by
    by_cases hij : i = j
    · subst hij
      simp only [State.setReq, Function.update_self] at hd
      exact hchosen d hd
    · simp only [State.setReq, Function.update_of_ne hij] at hd
      exact h.chosen i d hd
  stored i d path hd := by
    by_cases hij : i = j
    · subst hij
      simp only [State.setReq, Function.update_self] at hd
      exact hstored d path hd
    · simp only [State.setReq, Function.update_of_ne hij] at hd
      exact h.stored i d path hd

theorem loadable_update {d d' : DatasetId} {y : Dataset} (hd : s.db.datasets d = none)
    (h : s.loadable d' = true) :
    ((Function.update s.db.datasets d (some y)) d').any Dataset.loadable = true := by
  by_cases hdd : d' = d
  · subst hdd
    simp [State.loadable, hd] at h
  · rwa [Function.update_of_ne hdd]

/-- A request that has chosen a set commits it. -/
theorem choose {d : DatasetId} {j : ReqId} (h : Sets s) (hgolden : s'.golden = some d)
    (hreqs : s'.reqs = s.reqs) (hd : s'.loadable d = true)
    (hdata : ∀ d, s.loadable d = true → s'.loadable d = true) : Sets (s'.setReq j .ended) := by
  have hs : Sets s' :=
    { golden := fun d' hd' ↦ by
        rw [hgolden] at hd'
        cases hd'
        exact hd
      chosen := fun i d' hd' ↦ hdata d' (h.chosen i d' (hreqs ▸ hd'))
      stored := fun i d' path hd' ↦ h.stored i d' path (hreqs ▸ hd') }
  exact hs.setReq (by simp) (by simp)

theorem move (h : Sets s) (hm : Move c s x s') : Sets s' := by
  cases hm with
  | tick | upload | dequeue | index | callHook | next => exact h.frame rfl rfl fun _ ↦ id
  | dataset hd => exact h.frame rfl rfl fun d' hd' ↦ loadable_update hd hd'
  | hook hw hgate =>
      obtain ⟨-, hgolden, -, -, hreqs, hdata⟩ := (GateMove.of_gate hgate).frame
      exact h.frame hgolden hreqs fun d hd ↦ by simpa [State.loadable, hdata] using hd
  | run hw hrun he =>
      have hdata := (RunMove.of_step hrun he).datasets
      exact h.frame rfl rfl fun d hd ↦ by simpa [State.loadable, hdata] using hd
  | runGolden => exact h.setReq (by simp) (by simp)
  | setGolden hj hd =>
      refine h.setReq ?_ (by simp)
      intro d' hd'
      cases hd'
      exact hd
  | uploadGolden hj hpath =>
      apply h.setReq (by simp)
      intro d' path' hd'
      cases hd'
      exact hpath
  | @runRequest j start pc pc' t hj hgate =>
      obtain ⟨-, hgolden, -, -, hreqs, hdata⟩ := (GateMove.of_gate hgate).frame
      have ht : Sets t := h.frame hgolden hreqs fun d hd ↦ by
        simpa [State.loadable, hdata] using hd
      exact ht.setReq (by simp) (by simp)
  | choose hj => exact h.choose rfl rfl (h.chosen _ _ hj) fun _ ↦ id
  | store hj hd =>
      have hpath := h.stored _ _ _ hj
      refine h.choose rfl rfl ?_ fun d' hd' ↦ loadable_update hd hd'
      simp [State.loadable, Dataset.loadable, hpath]

end Sets

/-! ## Jobs of queued runs -/

/-- A job for the run is in the queue or about to start, or its enqueue is under way. -/
inductive Scheduled (s : State) (i : RunId) : Prop
  | queue (h : .ragEval i ∈ s.queue)
  | worker {pc : RunPc} (h : s.worker = some (.ragEval i pc)) (hpc : pc.starting = true)
  | hook {f : FileId} {start : Nat} {pc : GatePc} (h : s.worker = some (.hook f start pc))
      (hpc : pc.Holds i)
  | req {j : ReqId} {start : Nat} {pc : GatePc} (h : s.reqs j = .run start pc) (hpc : pc.Holds i)

/-- Every queued run will be started, unless something fails. -/
structure Runs (s : State) : Prop where
  ids : (s.db.runs.map Prod.fst).Nodup
  bound : ∀ y ∈ s.db.runs, y.1 < s.nextRun
  job : ∀ i pc, s.worker = some (.ragEval i pc) → pc.Ok s.db i
  scheduled : ∀ i, s.db.status i = some .queued → Scheduled s i

namespace Runs

protected theorem init : Runs .init where
  ids := .nil
  bound y hy := by cases hy
  job i pc h := by cases h
  scheduled i h := by cases h

theorem run_nextRun (h : Runs s) : s.db.run s.nextRun = none := by
  cases hr : s.db.run s.nextRun with
  | none => rfl
  | some r => exact absurd (h.bound _ (Db.mem_of_run hr)) (Nat.lt_irrefl _)

/-- The runs stay as they are. -/
theorem frame (h : Runs s) (hruns : s'.db.runs = s.db.runs) (hnext : s'.nextRun = s.nextRun)
    (hjob : ∀ i pc, s'.worker = some (.ragEval i pc) → pc.Ok s.db i)
    (hs : ∀ i, s.db.status i = some .queued → Scheduled s i → Scheduled s' i) : Runs s' := by
  have hrun : ∀ j, s'.db.run j = s.db.run j := fun j ↦ by simp only [Db.run, hruns]
  have hstatus : ∀ j, s'.db.status j = s.db.status j := fun j ↦ by simp only [Db.status, hrun]
  refine ⟨hruns ▸ h.ids, ?_, ?_, ?_⟩
  · intro y hy
    rw [hruns] at hy
    rw [hnext]
    exact h.bound y hy
  · intro i pc hw
    exact (hjob i pc hw).congr fun r hr ↦ (hrun i).trans hr
  · intro i hi
    rw [hstatus] at hi
    exact hs i hi (h.scheduled i hi)

/-- Only the queue changes, and grows. -/
theorem grow (h : Runs s) (hruns : s'.db.runs = s.db.runs) (hnext : s'.nextRun = s.nextRun)
    (hqueue : ∀ job ∈ s.queue, job ∈ s'.queue) (hworker : s'.worker = s.worker)
    (hreqs : s'.reqs = s.reqs) : Runs s' := by
  apply h.frame hruns hnext (fun i pc hw ↦ h.job i pc (hworker ▸ hw))
  intro i _ hs
  cases hs with
  | queue hq => exact .queue (hqueue _ hq)
  | worker hw hpc => exact .worker (hworker ▸ hw) hpc
  | hook hw hpc => exact .hook (hworker ▸ hw) hpc
  | req hr hpc => exact .req (hreqs ▸ hr) hpc

/-- The worker goes on with a job that neither starts a run nor holds one. -/
theorem setWorker {w : Option Job} (h : Runs s)
    (hold : ∀ i pc, s.worker = some (.ragEval i pc) → pc.starting = false)
    (hhook : ∀ i f start pc, s.worker = some (.hook f start pc) → ¬pc.Holds i)
    (hnew : ∀ i pc, w ≠ some (.ragEval i pc)) : Runs { s with worker := w } := by
  refine h.frame rfl rfl (fun i pc hw ↦ absurd hw (hnew i pc)) ?_
  intro i _ hs
  cases hs with
  | queue hq => exact .queue hq
  | worker hw hpc =>
      rw [hold _ _ hw] at hpc
      cases hpc
  | hook hw hpc => exact absurd hpc (hhook _ _ _ _ hw)
  | req hr hpc => exact .req hr hpc

/-- A request that holds no run goes on to a place where it holds none. -/
theorem setReq {j : ReqId} {q : Req} (h : Runs s)
    (hold : ∀ i start pc, s.reqs j = .run start pc → ¬pc.Holds i) : Runs (s.setReq j q) := by
  refine h.frame rfl rfl h.job ?_
  intro i _ hs
  cases hs with
  | queue hq => exact .queue hq
  | worker hw hpc => exact .worker hw hpc
  | hook hw hpc => exact .hook hw hpc
  | @req k start pc hr hpc =>
      have hkj : k ≠ j := by
        rintro rfl
        exact hold i start pc hr hpc
      have hsame : (s.setReq j q).reqs k = .run start pc := (Function.update_of_ne hkj _ _).trans hr
      exact .req hsame hpc

end Runs

/-- What a caller does to the runs: a run it commits is one it holds, and a run it holds is one it
goes on to hold, until its job is in the queue. -/
structure GateMove.Tables (s : State) (pc : GatePc) (t : State) (pc' : GatePc) : Prop where
  ids : (t.db.runs.map Prod.fst).Nodup
  bound : ∀ y ∈ t.db.runs, y.1 < t.nextRun
  run : ∀ k r, s.db.run k = some r → t.db.run k = some r
  queued : ∀ k, t.db.status k = some .queued → s.db.status k = some .queued ∨ pc'.Holds k
  queue : ∀ job ∈ s.queue, job ∈ t.queue
  holds : ∀ k, pc.Holds k → pc'.Holds k ∨ .ragEval k ∈ t.queue

theorem GateMove.tables (hm : GateMove s caller start pc t pc') (h : Runs s) :
    Tables s pc t pc' := by
  cases hm with
  | quiet hold _ _ =>
      exact ⟨h.ids, h.bound, fun _ _ ↦ id, fun _ ↦ .inl, fun _ ↦ id,
        fun k hk ↦ absurd hk (hold k)⟩
  | @commit d =>
      refine ⟨?_, ?_, ?_, ?_, fun _ ↦ id, ?_⟩
      · rw [Db.insertRun, List.map_append, List.nodup_append]
        refine ⟨h.ids, by simp, ?_⟩
        intro a ha b hb
        obtain ⟨y, hy, rfl⟩ := List.mem_map.mp ha
        obtain rfl : b = s.nextRun := by simpa using hb
        exact Nat.ne_of_lt (h.bound y hy)
      · intro y hy
        rcases List.mem_append.mp hy with hy | hy
        · exact Nat.lt_succ_of_lt (h.bound y hy)
        · rw [List.mem_singleton.mp hy]
          exact Nat.lt_succ_self _
      · intro k r hr
        rw [Db.run_insertRun, hr]
        rfl
      · intro k hk
        rw [Db.status, Db.run_insertRun] at hk
        by_cases hkn : k = s.nextRun
        · exact .inr (.inl (by rw [hkn]))
        · rw [if_neg hkn, Option.or_none] at hk
          exact .inl hk
      · intro k hk
        rcases hk with hk | hk
        · cases hk
        · cases hk
  | @refresh i =>
      refine ⟨h.ids, h.bound, fun _ _ ↦ id, fun _ ↦ .inl, fun _ ↦ id, fun k hk ↦ .inl (.inr ?_)⟩
      rcases hk with hk | hk
      · cases hk
        rfl
      · cases hk
  | @enqueue i =>
      refine ⟨h.ids, h.bound, fun _ _ ↦ id, fun _ ↦ .inl, fun _ ↦ List.mem_append_left _,
        fun k hk ↦ .inr ?_⟩
      rcases hk with hk | hk
      · cases hk
      · cases hk
        exact List.mem_append_right _ List.mem_cons_self

namespace Runs

/-- A step of `enqueue_after_index`. -/
theorem hook (h : Runs s) (hw : s.worker = some (.hook f start pc))
    (hm : GateMove s caller start pc t pc') :
    Runs { t with worker := some (.hook f start pc') } := by
  have htables := hm.tables h
  obtain ⟨-, -, -, -, hreqs, -⟩ := hm.frame
  refine ⟨htables.ids, htables.bound, fun i pc hw' ↦ (by cases hw'), ?_⟩
  intro k hk
  rcases htables.queued k hk with hk | hk
  · cases h.scheduled k hk with
    | queue hq => exact .queue (htables.queue _ hq)
    | worker hw' _ => cases hw.symm.trans hw'
    | hook hw' hpc =>
        cases hw.symm.trans hw'
        rcases htables.holds k hpc with hpc | hq
        · exact .hook rfl hpc
        · exact .queue hq
    | req hr hpc => exact .req (hreqs ▸ hr) hpc
  · exact .hook rfl hk

/-- A step of `run_golden`. -/
theorem runRequest {j : ReqId} (h : Runs s) (hr : s.reqs j = .run start pc)
    (hm : GateMove s caller start pc t pc') : Runs (t.setReq j (.run start pc')) := by
  have htables := hm.tables h
  obtain ⟨-, -, -, hworker, hreqs, -⟩ := hm.frame
  refine ⟨htables.ids, htables.bound, ?_, ?_⟩
  · intro i pc hw
    exact (h.job i pc (hworker ▸ hw)).congr (htables.run i)
  · intro k hk
    have hmine : pc'.Holds k → Scheduled (t.setReq j (.run start pc')) k := by
      intro hpc
      have hself : (t.setReq j (.run start pc')).reqs j = .run start pc' :=
        Function.update_self j _ t.reqs
      exact .req hself hpc
    rcases htables.queued k hk with hk | hk
    · cases h.scheduled k hk with
      | queue hq => exact .queue (htables.queue _ hq)
      | worker hw hpc => exact .worker (hworker.trans hw) hpc
      | hook hw hpc => exact .hook (hworker.trans hw) hpc
      | @req j' start' pc'' hr' hpc =>
          by_cases hj : j' = j
          · subst hj
            cases hr.symm.trans hr'
            rcases htables.holds k hpc with hpc | hq
            · exact hmine hpc
            · exact .queue hq
          · have hsame : (t.setReq j (.run start pc')).reqs j' = .run start' pc'' :=
              (Function.update_of_ne hj _ _).trans (hreqs ▸ hr')
            exact .req hsame hpc
    · exact hmine hk

/-- What is scheduled in another way than by the job of the worker stays so. -/
theorem scheduled_run {pc pc' : RunPc} {db' : Db} {k : RunId}
    (hw : s.worker = some (.ragEval i pc)) (hs : Scheduled s k)
    (hstart : k = i → pc.starting = true → pc'.starting = true) :
    Scheduled { s with db := db', worker := some (.ragEval i pc') } k := by
  cases hs with
  | queue hq => exact .queue hq
  | worker hw' hpc =>
      cases hw.symm.trans hw'
      exact .worker rfl (hstart rfl hpc)
  | hook hw' _ => cases hw.symm.trans hw'
  | req hr hpc => exact .req hr hpc

/-- The job of a run goes on without a write. -/
theorem runQuiet {pc pc' : RunPc} (h : Runs s) (hw : s.worker = some (.ragEval i pc))
    (hok : pc'.Ok s.db i)
    (hstart : s.db.status i = some .queued → pc.starting = true → pc'.starting = true) :
    Runs { s with worker := some (.ragEval i pc') } := by
  refine h.frame rfl rfl ?_ ?_
  · intro k pc'' hw'
    cases hw'
    exact hok
  · intro k hk hs
    exact scheduled_run hw hs fun hki ↦ hstart (hki ▸ hk)

/-- The job of a run writes it, and the run is not queued then unless it was before. -/
theorem runWrite {pc pc' : RunPc} {o : Tracked Run} {db' : Db} (h : Runs s)
    (hw : s.worker = some (.ragEval i pc)) (hdb : s.db.writeRun i o = some db')
    (hok : pc'.Ok db' i) (hnow : o.now.status ≠ .queued)
    (hstart : pc.starting = true → s.db.run i = some o.saved) :
    Runs { s with db := db', worker := some (.ragEval i pc') } := by
  have hkeys := Db.keys_writeRun hdb
  refine ⟨?_, ?_, ?_, ?_⟩
  · show (db'.runs.map Prod.fst).Nodup
    rw [hkeys]
    exact h.ids
  · intro y hy
    have hmem : y.1 ∈ s.db.runs.map Prod.fst := hkeys ▸ List.mem_map_of_mem hy
    obtain ⟨z, hz, hzy⟩ := List.mem_map.mp hmem
    rw [← hzy]
    exact h.bound z hz
  · intro k pc'' hw'
    cases hw'
    exact hok
  · intro k hk
    have hk : db'.status k = some .queued := hk
    rw [Db.status_writeRun hdb] at hk
    by_cases hki : k = i
    · subst hki
      rw [if_pos rfl] at hk
      obtain ⟨status, hstatus, hq⟩ := Option.map_eq_some_iff.mp hk
      rcases flushField_eq_or o.saved.status o.now.status status with he | ⟨-, he⟩
      · exact absurd (he.symm.trans hq) hnow
      · have hs := h.scheduled k (by rw [hstatus, ← he, hq])
        apply scheduled_run hw hs
        intro _ hpc
        -- the object of a run that starts is in step with its row
        have hsaved : status = o.saved.status := by
          rw [Db.status, hstart hpc] at hstatus
          cases hstatus
          rfl
        rw [hsaved, flushField_sync] at hq
        exact absurd hq hnow
    · rw [if_neg hki] at hk
      exact scheduled_run hw (h.scheduled k hk) fun he ↦ absurd he hki

/-- The status of a run that starts is set. -/
theorem status_start {o : Tracked Run} {db db' : Db} (h : db.run i = some o.saved)
    (ho : o.now = startRun o.saved) (hdb : db.writeRun i o = some db') :
    db'.status i = some .running := by
  rw [Db.status_writeRun hdb, if_pos rfl, Db.status, h, Option.map_some, Option.map_some,
    flushField_sync, ho]
  rfl

/-- A step of the job of a run. -/
theorem run {pc pc' : RunPc} {db' : Db} (h : Runs s) (hw : s.worker = some (.ragEval i pc))
    (hm : RunMove s.db i pc db' pc') :
    Runs { s with db := db', worker := some (.ragEval i pc') } := by
  have hok := h.job i pc hw
  cases hm with
  | gone hnone =>
      refine h.runQuiet hw trivial ?_
      intro hq
      rw [Db.status, hnone] at hq
      cases hq
  | load hr => exact h.runQuiet hw ⟨hr, rfl⟩ fun _ _ ↦ rfl
  | start hdb =>
      refine h.runWrite hw hdb (status_start hok.1 hok.2 hdb) ?_ fun _ ↦ hok.1
      rw [hok.2]
      exact fun hq ↦ by cases hq
  | stale hdb =>
      rw [Db.writeRun, hok.1] at hdb
      split at hdb
      · cases hdb
      · cases hdb
  | finish hdb => exact h.runWrite hw hdb trivial hok.1 fun hpc ↦ by cases hpc
  | quiet hold _ hok' =>
      apply h.runQuiet hw (hok' hok)
      intro _ hpc
      rw [hold] at hpc
      cases hpc

/-- The worker takes a job. -/
theorem dequeue {job : JobRef} {rest : List JobRef} (h : Runs s) (hw : s.worker = none)
    (hq : s.queue = job :: rest) : Runs { s with worker := some job.start, queue := rest } := by
  refine h.frame rfl rfl ?_ ?_
  · intro i pc hw'
    cases job with
    | index f => cases hw'
    | ragEval k =>
        cases hw'
        trivial
  · intro i _ hs
    cases hs with
    | queue hi =>
        rw [hq] at hi
        rcases List.mem_cons.mp hi with rfl | hi
        · exact .worker rfl rfl
        · exact .queue hi
    | worker hw' _ => cases hw.symm.trans hw'
    | hook hw' _ => cases hw.symm.trans hw'
    | req hr hpc => exact .req hr hpc

/-- A job that is over starts no run, and has none to enqueue. -/
theorem next (h : Runs s) (hover : s.worker.any Job.isOver = true) :
    Runs { s with worker := none } := by
  refine h.setWorker ?_ ?_ (by simp)
  · intro i pc hw
    rw [hw] at hover
    cases pc with
    | load | startCommit => cases hover
    | _ => rfl
  · intro i f start pc hw hpc
    rw [hw] at hover
    rcases hpc with rfl | rfl
    · cases hover
    · cases hover

theorem move (h : Runs s) (hm : Move c s x s') : Runs s' := by
  cases hm with
  | tick | dataset => exact h.grow rfl rfl (fun _ ↦ id) rfl rfl
  | upload => exact h.grow rfl rfl (fun _ ↦ List.mem_append_left _) rfl rfl
  | dequeue hw hq => exact h.dequeue hw hq
  | @index g j j' st e hw hj =>
      have ht : Runs { s with worker := some (.index g j') } :=
        h.setWorker (by simp [hw]) (by simp [hw]) (by simp)
      exact ht.grow rfl rfl (fun _ ↦ id) rfl rfl
  | callHook hw => exact h.setWorker (by simp [hw]) (by simp [hw]) (by simp)
  | hook hw hgate => exact h.hook hw (.of_gate hgate)
  | run hw hrun he => exact h.run hw (.of_step hrun he)
  | next hover => exact h.next hover
  | runGolden hj | setGolden hj _ | uploadGolden hj _ => exact h.setReq (by simp [hj])
  | runRequest hj hgate => exact h.runRequest hj (.of_gate hgate)
  | @choose j d hj =>
      have ht : Runs { s with golden := some d } := h.grow rfl rfl (fun _ ↦ id) rfl rfl
      apply ht.setReq
      intro i start pc hr
      cases hj.symm.trans hr
  | store hj _ =>
      refine Runs.setReq (h.grow rfl rfl (fun _ ↦ id) rfl rfl) ?_
      intro i start pc hr
      cases hj.symm.trans hr

end Runs

/-! ## Calls of the hook -/

/-- `enqueue_after_index` is going to queue a run, or to find one that is queued. -/
def GatePc.OnTrack (s : State) : GatePc → Prop
  | .file g => s.indexed g = true ∧ s.hasGolden = true
  | .project => s.hasGolden = true
  | .dataset d => s.loadable d = true
  | .active _ | .commit _ => True
  | .refresh _ | .enqueue _ | .ended => False

/-- A run is queued, or is going to be. -/
inductive Pledged (s : State) : Prop
  | hook {f : FileId} {start : Nat} {pc : GatePc} (h : s.worker = some (.hook f start pc))
      (hpc : pc.OnTrack s)
  | run {i : RunId} (h : s.db.status i = some .queued)

/-- Since the last start of a run the hook was called for an indexed file, with a golden set. -/
def owing : List Event → Bool
  | [] | .started _ :: _ => false
  | .called _ true :: _ => true
  | .called _ false :: log | .indexed _ :: log => owing log

theorem started_of_not_owing {later earlier : List Event}
    (hlog : log = later ++ .called f true :: earlier) (h : owing log = false) :
    ∃ i, .started i ∈ later := by
  subst hlog
  induction later with
  | nil => cases h
  | cons e later ih =>
      cases e with
      | started i => exact ⟨i, List.mem_cons_self⟩
      | indexed g =>
          obtain ⟨i, hi⟩ := ih h
          exact ⟨i, List.mem_cons_of_mem _ hi⟩
      | called g owed =>
          cases owed with
          | true => cases h
          | false =>
              obtain ⟨i, hi⟩ := ih h
              exact ⟨i, List.mem_cons_of_mem _ hi⟩

namespace Pledged

/-- The worker's job stays as it is, and what it is going to read stays good. -/
theorem frame (h : Pledged s) (hworker : s'.worker = s.worker)
    (hindexed : ∀ g, s.indexed g = true → s'.indexed g = true)
    (hgolden : s.hasGolden = true → s'.hasGolden = true)
    (hload : ∀ d, s.loadable d = true → s'.loadable d = true)
    (hstatus : ∀ i, s.db.status i = some .queued → s'.db.status i = some .queued) :
    Pledged s' := by
  cases h with
  | run hr => exact .run (hstatus _ hr)
  | @hook f start pc hw hpc =>
      refine .hook (hworker.trans hw) ?_
      cases pc with
      | file g => exact ⟨hindexed g hpc.1, hgolden hpc.2⟩
      | project => exact hgolden hpc
      | dataset d => exact hload d hpc
      | active | commit => trivial
      | refresh | enqueue | ended => exact hpc

/-- The worker is at another job, so a run is queued. -/
theorem queued (h : Pledged s)
    (hw : ∀ f start pc, s.worker = some (.hook f start pc) → pc = .ended) :
    ∃ i, s.db.status i = some .queued := by
  cases h with
  | run hr => exact ⟨_, hr⟩
  | hook hw' hpc =>
      rw [hw _ _ _ hw'] at hpc
      exact hpc.elim

/-- A step of `enqueue_after_index`. -/
theorem hook_step (h : Pledged s) (hruns : Runs s) (hw : s.worker = some (.hook f start pc))
    (hgate : s.gate .index start pc = some (t, pc')) :
    Pledged { t with worker := some (.hook f start pc') } := by
  have htables := (GateMove.of_gate hgate).tables hruns
  cases h with
  | run hr => exact .run (Db.status_of_run (htables.run _) hr)
  | hook hw' hpc =>
      cases hw.symm.trans hw'
      cases pc with
      | file g =>
          rw [State.gate, hpc.1] at hgate
          cases hgate
          exact .hook rfl hpc.2
      | project =>
          obtain ⟨d, hd, hload⟩ := (Option.any_eq_true _ _).mp hpc
          rw [State.gate, hd] at hgate
          cases hgate
          exact .hook rfl hload
      | dataset d =>
          have hpc : s.loadable d = true := hpc
          rw [State.gate, hpc] at hgate
          cases hgate
          exact .hook rfl trivial
      | active d =>
          rw [State.gate] at hgate
          cases hactive : s.activeRun .index with
          | true =>
              rw [hactive] at hgate
              cases hgate
              -- the run that it finds is queued
              obtain ⟨⟨i, r⟩, hmem, hr⟩ := List.any_eq_true.mp hactive
              obtain ⟨-, hqueued⟩ : r.project = theProject ∧ r.status = .queued := by
                simpa [Caller.counts, Caller.index] using (Bool.and_eq_true_iff.mp hr).1
              exact .run (Option.map_eq_some_iff.mpr ⟨r, Db.run_of_mem hruns.ids hmem, hqueued⟩)
          | false =>
              rw [hactive] at hgate
              cases hgate
              exact .hook rfl trivial
      | commit d =>
          cases hgate
          let r := newRun d Caller.index.trigger start
          have hrun : (s.db.insertRun s.nextRun r).run s.nextRun = some r := by
            rw [Db.run_insertRun, hruns.run_nextRun, if_pos rfl]
            rfl
          exact .run (Option.map_eq_some_iff.mpr ⟨_, hrun, rfl⟩)
      | refresh | enqueue | ended => exact hpc.elim

/-- A step of the job of a run, unless it starts the run: the run is not one that is queued. -/
theorem run_step {pc pc' : RunPc} {db' : Db} (h : Pledged s) (hruns : Runs s)
    (hw : s.worker = some (.ragEval i pc)) (hm : RunMove s.db i pc db' pc')
    (hstart : ∀ o, pc ≠ .startCommit o) :
    Pledged { s with db := db', worker := some (.ragEval i pc') } := by
  obtain ⟨k, hk⟩ := h.queued (by simp [hw])
  have hok := hruns.job i pc hw
  cases hm with
  | gone | load | quiet => exact .run hk
  | start | stale => exact absurd rfl (hstart _)
  | finish hdb =>
      have hki : k ≠ i := by
        rintro rfl
        cases hk.symm.trans hok.2
      refine .run (i := k) ?_
      show Db.status _ k = _
      rw [Db.status_writeRun hdb, if_neg hki]
      exact hk

end Pledged

/-! ## The log -/

theorem eventOf_index {j : IndexJob} {e : JobEv} (hw : s.worker = some (.index f j))
    (hn : step c s (.index e) = some s') : eventOf c s (.index e) =
      if s.indexed f = false ∧ s'.indexed f = true then some (.indexed f) else none := by
  simp only [eventOf, hw, hn, Option.any_some, Bool.and_eq_true, Bool.not_eq_true']

theorem eventOf_start {o : Tracked Run} (hw : s.worker = some (.ragEval i (.startCommit o)))
    (hn : step c s (.run .committed) = some s') (hs : s'.db.status i = some .running) :
    eventOf c s (.run .committed) = some (.started i) := by
  simp only [eventOf, hw, hn, Option.any_some, hs, decide_true, if_true]

theorem called_of_eventOf (h : eventOf c s x = some (.called f true)) :
    x = .callHook ∧ (∃ j, s.worker = some (.index f j)) ∧ s.indexed f = true ∧
      s.hasGolden = true := by
  simp only [eventOf] at h
  split at h
  · split at h
    · cases h
    · cases h
  · next g j hw =>
      simp only [Option.some.injEq, Event.called.injEq, Bool.and_eq_true] at h
      obtain ⟨rfl, hindexed, hgolden⟩ := h
      exact ⟨rfl, ⟨j, hw⟩, hindexed, hgolden⟩
  · split at h
    · cases h
    · cases h
  · cases h

theorem owing_observe (h : owing (observe c s x log) = true) :
    owing log = true ∨ ∃ f, eventOf c s x = some (.called f true) := by
  rw [observe] at h
  cases he : eventOf c s x with
  | none =>
      rw [he] at h
      exact .inl h
  | some e =>
      rw [he] at h
      cases e with
      | started i => cases h
      | indexed g => exact .inl h
      | called g owed =>
          cases owed with
          | true => exact .inr ⟨g, rfl⟩
          | false => exact .inl h

/-- The file of every call that counts was committed as indexed before. -/
structure Calls (s : State) (log : List Event) : Prop where
  fresh : ∀ f, s.nextFile ≤ f → s.stores.files f = none
  indexed : ∀ f, s.indexed f = true → .indexed f ∈ log
  calls : ∀ f later earlier, log = later ++ .called f true :: earlier → .indexed f ∈ earlier

namespace Calls

protected theorem init : Calls .init [] where
  fresh f _ := rfl
  indexed f h := by cases h
  calls f later earlier h := by cases later <;> cases h

/-- No file becomes indexed, and nothing is remembered. -/
theorem frame (h : Calls s log) (hstores : s'.stores = s.stores)
    (hnext : s'.nextFile = s.nextFile) : Calls s' log where
  fresh f hf := by
    rw [hstores]
    exact h.fresh f (hnext ▸ hf)
  indexed f hf := h.indexed f (by simpa [State.indexed, hstores] using hf)
  calls := h.calls

/-- The event of a step is remembered. -/
theorem observe (h : Calls s log) : Calls s (observe c s x log) := by
  rw [Golden.observe]
  cases he : eventOf c s x with
  | none => exact h
  | some e =>
      refine ⟨h.fresh, fun f hf ↦ List.mem_cons_of_mem _ (h.indexed f hf), ?_⟩
      intro f later earlier hlog
      cases later with
      | nil =>
          cases hlog
          exact h.indexed f (called_of_eventOf he).2.2.1
      | cons e' later =>
          cases hlog
          exact h.calls f later earlier rfl

theorem upload (h : Calls s log) :
    Calls { s with
      stores := s.stores.setFile s.nextFile (some ⟨.pending, none⟩)
      nextFile := s.nextFile + 1
      queue := s.queue ++ [.index s.nextFile] } log where
  fresh f hf := by
    have hne : f ≠ s.nextFile := Nat.ne_of_gt hf
    exact (Function.update_of_ne hne _ _).trans (h.fresh f (Nat.le_of_lt hf))
  indexed f hf := by
    by_cases hne : f = s.nextFile
    · subst hne
      simp [State.indexed, Stores.setFile] at hf
    · apply h.indexed f
      simpa [State.indexed, Stores.setFile, Function.update_of_ne hne] using hf
  calls := h.calls

/-- A step of the index job of `f`. -/
theorem index {j j' : IndexJob} {st : Stores} {e : JobEv} (h : Calls s log)
    (hj : j.step c f s.stores false e = some (st, j'))
    (hnew : s.indexed f = false → { s with stores := st }.indexed f = true → .indexed f ∈ log) :
    Calls { s with stores := st, worker := some (.index f j') } log where
  fresh g hg := by
    have hwrites := IndexJob.step_writesOnly hj
    by_cases hne : g = f
    · subst hne
      exact hwrites.none (h.fresh g hg)
    · exact (hwrites.ne g hne).trans (h.fresh g hg)
  indexed g hg := by
    by_cases hne : g = f
    · subst hne
      cases hold : s.indexed g with
      | true => exact h.indexed g hold
      | false => exact hnew hold hg
    · apply h.indexed g
      rw [State.indexed, (IndexJob.step_writesOnly hj).ne g hne] at hg
      exact hg
  calls := h.calls

/-- One step, with what is remembered of it. -/
theorem step (h : Calls s log) (hm : Move c s x s') (hn : step c s x = some s') :
    Calls s' (Golden.observe c s x log) := by
  have hlog : Calls s (Golden.observe c s x log) := h.observe
  cases hm with
  | tick | dataset | dequeue | next | runGolden | setGolden | uploadGolden | choose | store
  | callHook | run => exact hlog.frame rfl rfl
  | upload => exact hlog.upload
  | index hw hj =>
      apply hlog.index hj
      intro hold hnew
      rw [Golden.observe, eventOf_index hw hn, if_pos ⟨hold, hnew⟩]
      exact List.mem_cons_self
  | hook hw hgate | runRequest hj hgate =>
      obtain ⟨hstores, -, hnext, -⟩ := (GateMove.of_gate hgate).frame
      exact hlog.frame hstores hnext

end Calls

namespace Pledged

/-- A request that is not at `set_golden_set` takes a step. -/
theorem gate_step {j : ReqId} {q : Req} (h : Pledged s) (hruns : Runs s)
    (hgate : s.gate caller start pc = some (t, pc')) : Pledged (t.setReq j q) := by
  have htables := (GateMove.of_gate hgate).tables hruns
  obtain ⟨hstores, hgolden, -, hworker, -, hdata⟩ := (GateMove.of_gate hgate).frame
  have hload : ∀ d, t.loadable d = s.loadable d := fun d ↦ by simp only [State.loadable, hdata]
  refine h.frame hworker ?_ ?_ (fun d hd ↦ (hload d).trans hd)
    fun i ↦ Db.status_of_run (htables.run i)
  · intro g hg
    show t.indexed g = true
    rw [State.indexed, hstores]
    exact hg
  · intro hg
    show t.hasGolden = true
    rw [State.hasGolden, hgolden, funext hload]
    exact hg

/-- One step, unless a run is started. -/
theorem step (h : Pledged s) (hsets : Sets s) (hruns : Runs s) (hcalls : Calls s log)
    (hm : Move c s x s')
    (hstart : ∀ i o, s.worker = some (.ragEval i (.startCommit o)) → ∀ e, x ≠ .run e) :
    Pledged s' := by
  cases hm with
  | tick | runGolden | setGolden | uploadGolden =>
      exact h.frame rfl (fun _ ↦ id) id (fun _ ↦ id) fun _ ↦ id
  | upload =>
      refine h.frame rfl ?_ id (fun _ ↦ id) fun _ ↦ id
      intro g hg
      have hne : g ≠ s.nextFile := by
        rintro rfl
        simp [State.indexed, hcalls.fresh _ (Nat.le_refl _)] at hg
      simpa [State.indexed, Stores.setFile, Function.update_of_ne hne] using hg
  | dataset hd =>
      refine h.frame rfl (fun _ ↦ id) ?_ (fun d' ↦ Sets.loadable_update hd) fun _ ↦ id
      intro hg
      obtain ⟨d', hd', hload⟩ := (Option.any_eq_true _ _).mp hg
      exact (Option.any_eq_true _ _).mpr ⟨d', hd', Sets.loadable_update hd hload⟩
  | dequeue hw _ =>
      obtain ⟨i, hi⟩ := h.queued (by simp [hw])
      exact .run hi
  | index hw _ =>
      obtain ⟨i, hi⟩ := h.queued (by simp [hw])
      exact .run hi
  | callHook hw =>
      obtain ⟨i, hi⟩ := h.queued (by simp [hw])
      exact .run hi
  | hook hw hgate => exact h.hook_step hruns hw hgate
  | run hw hrun he =>
      apply h.run_step hruns hw (.of_step hrun he)
      intro o ho
      subst ho
      exact hstart _ _ hw _ rfl
  | next hover =>
      obtain ⟨i, hi⟩ := h.queued fun f start pc hw ↦ by simpa [hw, Job.isOver] using hover
      exact .run hi
  | runRequest _ hgate => exact h.gate_step hruns hgate
  | choose hj =>
      refine h.frame rfl (fun _ ↦ id) ?_ (fun _ ↦ id) fun _ ↦ id
      intro _
      exact hsets.chosen _ _ hj
  | store hj hd =>
      refine h.frame rfl (fun _ ↦ id) ?_ (fun d' ↦ Sets.loadable_update hd) fun _ ↦ id
      intro _
      have hpath := hsets.stored _ _ _ hj
      simp [State.setReq, State.hasGolden, State.loadable, Dataset.loadable, hpath]

end Pledged

/-- What every state of a healthy run satisfies. -/
structure Inv (x : State × List Event) : Prop where
  sets : Sets x.1
  runs : Runs x.1
  calls : Calls x.1 x.2
  pledged : owing x.2 = true → Pledged x.1

/-- A step of the job that starts its run. -/
theorem Inv.eventOf_start {o : Tracked Run} {e : RunEv} (h : Inv (s, log))
    (hw : s.worker = some (.ragEval i (.startCommit o))) (hg : healthy (.run e) = true)
    (hn : step c s (.run e) = some s') : eventOf c s (.run e) = some (.started i) := by
  cases Move.of_step hg hn with
  | @run k pc pc' db' _ hw' hrun _ =>
      cases hw.symm.trans hw'
      obtain ⟨hrow, ho⟩ := h.runs.job i _ hw
      cases e with
      | committed =>
          cases RunMove.of_step hrun hg with
          | start hdb => exact Golden.eventOf_start hw hn (Runs.status_start hrow ho hdb)
          | stale hdb =>
              rw [Db.writeRun, hrow] at hdb
              split at hdb <;> cases hdb
          | quiet hold => cases hold
      | commitError | raise | cancel => cases hg
      | _ => cases hrun

theorem Inv.step (h : Inv (s, log)) (hg : healthy x = true) (hn : step c s x = some s') :
    Inv (s', observe c s x log) := by
  have hm := Move.of_step hg hn
  refine ⟨h.sets.move hm, h.runs.move hm, h.calls.step hm hn, ?_⟩
  intro howing
  rcases owing_observe howing with hlog | ⟨f, he⟩
  · apply (h.pledged hlog).step h.sets h.runs h.calls hm
    intro i o hw e hx
    subst hx
    simp only [observe, h.eventOf_start hw hg hn] at howing
    cases howing
  · obtain ⟨rfl, ⟨j, hw⟩, hindexed, hgolden⟩ := called_of_eventOf he
    cases hm with
    | callHook hw' =>
        cases hw.symm.trans hw'
        exact .hook rfl ⟨hindexed, hgolden⟩

theorem inv_of_reach {y : State × List Event} (h : (system c).Reach Healthy y) : Inv y := by
  refine h.invariant (P := Inv) ⟨.init, .init, .init, ?_⟩ ?_
  · intro howing
    cases howing
  · rintro ⟨s, log⟩ x y' hinv hg hn
    obtain ⟨s', hs', rfl⟩ := Option.map_eq_some_iff.mp hn
    exact hinv.step hg hs'

/-! ## Quiet states -/

/-- The queue is empty, no job is in flight, and no request is between the commit of a run and the
enqueue of its job. -/
structure Quiet (s : State) : Prop where
  queue : s.queue = []
  worker : s.worker = none
  reqs : ∀ j, (s.reqs j).queueing = false

theorem Quiet.not_pledged (h : Quiet s) (hruns : Runs s) : ¬Pledged s := by
  intro hp
  obtain ⟨i, hi⟩ := hp.queued (by simp [h.worker])
  cases hruns.scheduled i hi with
  | queue hq =>
      rw [h.queue] at hq
      cases hq
  | worker hw _ => cases h.worker.symm.trans hw
  | hook hw _ => cases h.worker.symm.trans hw
  | @req j start pc hr hpc =>
      have hquiet := h.reqs j
      rw [hr] at hquiet
      rcases hpc with rfl | rfl
      · cases hquiet
      · cases hquiet

/-- With a healthy queue and database, in every quiet state every file for which the hook was called
with a golden set is covered by a run that was started after it was indexed. -/
theorem indexed_covered (c : Files.Config) {y : State × List Event}
    (h : (system c).Reach Healthy y) (hq : Quiet y.1) : Covered y.2 := by
  intro f later earlier hlog
  have hinv := inv_of_reach h
  have howing : owing y.2 = false := by
    cases ho : owing y.2 with
    | false => rfl
    | true => exact absurd (hinv.pledged ho) (hq.not_pledged hinv.runs)
  obtain ⟨i, hi⟩ := started_of_not_owing hlog howing
  obtain ⟨between, before, hearlier, hnot⟩ :=
    List.eq_append_cons_of_mem (hinv.calls.calls f later earlier hlog)
  exact ⟨between, before, hearlier, hnot, i, List.mem_append_left _ hi⟩

/-- The first request stores a set, and then a file is indexed. -/
def indexFile : List Act :=
  [.uploadGolden 0 0 "golden.jsonl", .request 0, .upload, .dequeue, .index .ok, .index .ok,
    .index .ok, .index .ok, .index .ok, .index .ok, .index (.parsed []), .index .ok, .index .ok,
    .index .ok, .callHook]

/-- The hook queues a run, which finds no chunks. -/
def gateRun : List Act :=
  indexFile ++ ([.hook, .hook, .hook, .hook, .hook, .hook, .hook, .next, .dequeue, .run .loaded,
    .run .committed, .run (.projectRead 0), .run (.datasetRead 0), .run (.questionsRead []),
    .run (.counted 0 0), .run .committed, .next] : List Act)

/-- The requests after that. -/
def oneRequest : ReqId → Req :=
  ((State.init.setReq 0 (.setting 0 (some "golden.jsonl"))).setReq 0 .ended).reqs

theorem oneRequest_queueing (j : ReqId) : (oneRequest j).queueing = false := by
  by_cases hj : j = 0
  · subst hj
    rfl
  · simp only [oneRequest, State.setReq, Function.update_of_ne hj]
    rfl

theorem exec_gateRun : ((system .sample).exec Healthy (system .sample).init gateRun).map
    (fun y ↦ (y.1.queue, y.1.worker, y.1.reqs, y.2)) =
      some ([], none, oneRequest, [.started 0, .called 0 true, .indexed 0]) := by rfl

/-- `indexed_covered` at a file that the run of the hook covers. -/
theorem indexed_covered_gateRun : ∃ y, (system .sample).Reach Healthy y ∧ Quiet y.1 ∧
    y.2 = [.started 0, .called 0 true, .indexed 0] ∧ Covered y.2 := by
  obtain ⟨y, hy, hf⟩ := System.Reach.of_exec exec_gateRun
  simp only [Prod.mk.injEq] at hf
  obtain ⟨hq, hw, hr, hlog⟩ := hf
  have hquiet : Quiet y.1 := ⟨hq, hw, fun j ↦ hr ▸ oneRequest_queueing j⟩
  exact ⟨y, hy, hquiet, hlog, indexed_covered .sample hy hquiet⟩

/-- The first query of the hook raises. -/
theorem exec_hookError : ((system .sample).exec (fun _ _ ↦ True) (system .sample).init
    (indexFile ++ [.hookError, .next])).map (fun y ↦ (y.1.queue, y.1.worker, y.1.reqs, y.2)) =
      some ([], none, oneRequest, [.called 0 true, .indexed 0]) := by rfl

theorem not_covered_of_called : ¬Covered [.called 0 true, .indexed 0] := by
  intro h
  obtain ⟨between, before, hearlier, -, i, hi⟩ := h 0 [] [.indexed 0] rfl
  cases between with
  | nil => cases hi
  | cons e between =>
      have hlen := congrArg List.length hearlier
      simp at hlen

/-- A request has committed its run and not yet enqueued the job when the hook looks for a run; or
the hook, which is best effort, cannot reach the database. -/
theorem uncovered_of_openRequest :
    (∃ y, (system .sample).Reach Healthy y ∧ y.1.queue = [] ∧ y.1.worker = none ∧
      ¬Covered y.2) ∧
    ∃ y, (system .sample).Reachable y ∧ Quiet y.1 ∧ ¬Covered y.2 := by
  constructor
  · obtain ⟨y, hy, hf⟩ := System.Reach.of_exec (S := system .sample) (g := Healthy)
      (l := indexFile ++ ([.hook, .hook, .hook, .runGolden 1, .request 1, .request 1, .request 1,
        .request 1, .hook, .next] : List Act))
      (f := fun y ↦ (y.1.queue, y.1.worker, y.2))
      (b := ([], none, [.called 0 true, .indexed 0])) (by decide)
    simp only [Prod.mk.injEq] at hf
    obtain ⟨hq, hw, hlog⟩ := hf
    exact ⟨y, hy, hq, hw, hlog ▸ not_covered_of_called⟩
  · obtain ⟨y, hy, hf⟩ := System.Reach.of_exec exec_hookError
    simp only [Prod.mk.injEq] at hf
    obtain ⟨hq, hw, hr, hlog⟩ := hf
    exact ⟨y, hy, ⟨hq, hw, fun j ↦ hr ▸ oneRequest_queueing j⟩, hlog ▸ not_covered_of_called⟩

end Adapta.Golden
