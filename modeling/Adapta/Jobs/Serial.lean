import Adapta.Jobs.Moves

/-!
# One job at a time

The single-worker design rests on `worker_loop` being serial: a job is dequeued only
when the task of the previous one is done, and a job is recorded as `failed` only when
its handler raised.  `Serial` states this of a state.

The loop waits for a task inside a `try` block that also holds the heartbeat, and a
heartbeat that raises leaves the block by the branch meant for a failed job.
`Reach.serial` shows that this is the only way out of step: along every run in which no
heartbeat of the wait raises while the task is anything but failed (`BeatLost`), every
state is serial.  `beatLost_fails` shows that any such heartbeat does break the promise.
-/

namespace Adapta.Jobs

open Lib

variable {s s' : State} {a : Act} {j : JobId} {t t' : Task}

/-! ## What a step writes -/

/-- The handler tasks of the process: the one in flight and those the loop has left. -/
def State.tasks (s : State) : List Task :=
  match s.pc with
  | .job t _ => t :: s.strays
  | _ => s.strays

/-- `Writes s a j e`: from `s`, the action `a` may replace the metadata entry of `j` by `e`. -/
inductive Writes (s : State) : Act → JobId → Option Entry → Prop
  | enqueue (j : JobId) (k : Kind) (p : Payload) :
      Writes s (.enqueue j k p) j ((s.redis.enqueue j k p).jobs j)
  | expire (j : JobId) : Writes s (.expire j) j none
  | sweep {j : JobId} {raw : Option JobMeta} {error : String} (h : (j, raw) ∈ s.sweeps) :
      Writes s (.sweepSet j raw error) j
        (some (updateMeta raw j { status := .failed, error := some error }))
  | fail {t : Task} {error : String} {raw : Option JobMeta} {r : Reply}
      (h : s.pc = .job t (.failSet error raw)) :
      Writes s (.fail r) t.job.jobId
        (some (updateMeta raw t.job.jobId { status := .failed, error := some error }))
  | requeue {t : Task} {raw : Option JobMeta} {r : Reply}
      (h : s.pc = .job t (.requeueSet raw)) :
      Writes s (.requeue r) t.job.jobId
        (some (updateMeta raw t.job.jobId { status := .queued, progress := some 0 }))
  | run {a : Act} {t : Task} {raw : Option JobMeta} (ht : t ∈ s.tasks) (h : t.pc = .runSet raw) :
      Writes s a t.job.jobId (some (updateMeta raw t.job.jobId { status := .running }))
  | done {a : Act} {t : Task} {raw : Option JobMeta} (ht : t ∈ s.tasks) (h : t.pc = .doneSet raw) :
      Writes s a t.job.jobId
        (some (updateMeta raw t.job.jobId { status := .succeeded, progress := some 1 }))

namespace Task

/-- A task writes its own job's metadata, as `running` or as `succeeded`. -/
theorem write_jobs (hs : t ∈ s.tasks) (b : Bool) :
    (t.write b s.redis).jobs = s.redis.jobs ∨
      ∃ e, Writes s a t.job.jobId e ∧
        (t.write b s.redis).jobs = Function.update s.redis.jobs t.job.jobId e := by
  unfold write
  split
  · next raw h => exact .inr ⟨_, .run hs h, rfl⟩
  · next raw h => exact .inr ⟨_, .done hs h, rfl⟩
  · exact .inl rfl

@[simp] theorem write_queue (r : Redis) (b : Bool) : (t.write b r).queue = r.queue := by
  unfold write
  split <;> rfl

@[simp] theorem write_false (r : Redis) : t.write false r = r := by
  unfold write
  split
  · contradiction
  · contradiction
  · rfl

theorem done_of_raised (h : t.raised = true) : t.done = true := by
  unfold raised at h
  split at h
  · next hpc => simp [done, hpc]
  · cases h

end Task

/-- Every event of a task has the effect of `write`. -/
theorem TaskMove.redis_eq {r r' : Redis} {e : TaskEv} {pc : TaskPc} (h : TaskMove r t e r' pc) :
    ∃ b, r' = t.write b r := by
  cases h with
  | lost => exact ⟨_, rfl⟩
  | calm hc =>
      cases hc with
      | start | unhandled | runGet | doneGet | bodyReturn | bodyRaise | afterReturn =>
          exact ⟨false, (Task.write_false r).symm⟩
      | runSet hpc | noTarget hpc | doneSet hpc => exact ⟨true, by simp [Task.write, hpc]⟩
      | cancel => exact ⟨_, rfl⟩

/-- A finished task has no more events. -/
theorem TaskMove.not_done {r r' : Redis} {e : TaskEv} {pc : TaskPc} (h : TaskMove r t e r' pc) :
    t.done = false := by
  cases h with
  | lost hr =>
      unfold Task.resume at hr
      unfold Task.done
      split
      · next hpc =>
          rw [hpc] at hr
          cases hr
      · rfl
  | calm hc =>
      cases hc with
      | cancel _ hd => exact hd
      | start hpc | unhandled hpc | runGet hpc | runSet hpc | noTarget hpc | doneGet hpc
      | doneSet hpc | bodyReturn hpc | bodyRaise hpc | afterReturn hpc => simp [Task.done, hpc]

theorem mem_tasks {p : JobPc} (h : s.pc = .job t p) : t ∈ s.tasks := by
  simp [State.tasks, h]

theorem stray_mem_tasks {n : Nat} (h : s.strays[n]? = some t) : t ∈ s.tasks := by
  have := List.mem_of_getElem? h
  unfold State.tasks
  split <;> simp [this]

theorem loopTop_ne_job (s : State) (t : Task) (p : JobPc) : s.loopTop.pc ≠ .job t p := by
  simp only [State.loopTop]
  split <;> simp

@[simp] theorem loopTop_tasks (s : State) : s.loopTop.tasks = s.strays := by
  unfold State.tasks
  split
  · next h => exact absurd h (loopTop_ne_job s _ _)
  · rfl

@[simp] theorem afterBeat_redis (s : State) (t : Task) : (s.afterBeat t).redis = s.redis := by
  unfold State.afterBeat
  split <;> rfl

@[simp] theorem requestShutdown_redis (s : State) : s.requestShutdown.redis = s.redis := by
  unfold State.requestShutdown
  split <;> rfl

/-- The effect of a step on the metadata. -/
def Wrote (s : State) (a : Act) (s' : State) : Prop :=
  s'.redis.jobs = s.redis.jobs ∨
    ∃ j e, Writes s a j e ∧ s'.redis.jobs = Function.update s.redis.jobs j e

theorem TaskMove.wrote {r : Redis} {e : TaskEv} {pc : TaskPc} (hs : t ∈ s.tasks)
    (h : TaskMove s.redis t e r pc) (hr : s'.redis = r) : Wrote s a s' := by
  obtain ⟨b, rfl⟩ := h.redis_eq
  rcases Task.write_jobs (a := a) hs b with hw | ⟨x, hw, hj⟩
  · exact .inl (hr ▸ hw)
  · exact .inr ⟨_, x, hw, hr ▸ hj⟩

theorem Calm.wrote (h : Calm s a s') : Wrote s a s' := by
  cases h with
  | enqueue j k p => exact .inr ⟨j, _, .enqueue j k p, by simp [Redis.enqueue]⟩
  | expire j => exact .inr ⟨j, _, .expire j, rfl⟩
  | sweepSet error hm => exact .inr ⟨_, _, .sweep hm, rfl⟩
  | failSet hpc => exact .inr ⟨_, _, .fail hpc, rfl⟩
  | requeueSet hpc => exact .inr ⟨_, _, .requeue hpc, rfl⟩
  | task hpc hc => exact TaskMove.wrote (mem_tasks hpc) (.calm hc) rfl
  | jobBeat => exact .inl (by rw [afterBeat_redis])
  | sigterm => exact .inl (by rw [requestShutdown_redis])
  | sweepGet | start | startBeat | warm | readyBeat | loopBeat | pop | popEmpty | fetchNone | fetch
  | wakeUp | wake | failGet | requeueGet | requeuePush | die => exact .inl rfl

theorem step_jobs (h : step s a = some s') : Wrote s a s' := by
  cases Move.of_step h with
  | calm hc => exact hc.wrote
  | @popLost b | @requeuePushLost _ b => cases b <;> exact .inl rfl
  | @failSetLost _ _ _ b hpc =>
      cases b
      · exact .inl rfl
      · exact .inr ⟨_, _, .fail hpc, rfl⟩
  | @requeueSetLost _ _ b hpc =>
      cases b
      · exact .inl rfl
      · exact .inr ⟨_, _, .requeue hpc, rfl⟩
  | taskLost hpc hr => exact TaskMove.wrote (mem_tasks hpc) (.lost hr) rfl
  | stray hn hm => exact hm.wrote (stray_mem_tasks hn) rfl
  | beatDies | beatLost | popTimeout | fetchLost | failGetLost | requeueGetLost => exact .inl rfl

/-! ## Seriality -/

/-- The handler tasks that are not done. -/
def State.pending (s : State) : List Task := s.tasks.filter (!·.done)

/-- A state of a serial worker. -/
structure Serial (s : State) : Prop where
  /-- At most one handler task is unfinished. -/
  one : s.pending.length ≤ 1
  /-- A job is dequeued only when no task is unfinished. -/
  dequeue : (s.pc = .popping ∨ ∃ j, s.pc = .fetching j) → s.pending = []
  /-- From here, the worker records as `failed` only the job in flight, and only if its
  handler has raised. -/
  failed : ∀ a s' j, step s a = some s' → (∀ raw error, a ≠ .sweepSet j raw error) →
    s'.redis.status j = some .failed → s'.redis.jobs j ≠ s.redis.jobs j →
    ∃ t p, s.pc = .job t p ∧ t.job.jobId = j ∧ t.raised = true

/-- The heartbeat of the wait raises, and the task in flight has not failed: it is
unfinished, or it has returned, or it was cancelled. -/
def BeatLost (s : State) (a : Act) : Prop :=
  match s.pc, a with
  | .job t .beat, .beat (.error _) => t.raised = false
  | _, _ => False

instance (s : State) (a : Act) : Decidable (BeatLost s a) := by
  unfold BeatLost
  split <;> infer_instance

/-- What the handling of a job requires of its task: the failure branch is for a task
that raised, the shutdown branch for one that is over. -/
def JobPc.Fits (t : Task) : JobPc → Prop
  | .wait | .beat => True
  | .failGet _ | .failSet _ _ => t.raised = true
  | .requeueGet | .requeueSet _ | .requeuePush => t.done = true

/-- The invariant behind `Serial`: the loop has left no task, and its branch fits the
task in flight. -/
structure InStep (s : State) : Prop where
  strays : s.strays = []
  fits : ∀ t p, s.pc = .job t p → p.Fits t

namespace InStep

/-- The loop handles a job. -/
theorem of_job {p : JobPc} (hs : s.strays = []) (hpc : s.pc = .job t p) (hf : p.Fits t) :
    InStep s := by
  refine ⟨hs, ?_⟩
  intro t' p' hp
  cases hpc.symm.trans hp
  exact hf

/-- The loop handles no job. -/
theorem of_idle (hs : s.strays = []) (hpc : ∀ t p, s.pc ≠ .job t p) : InStep s :=
  ⟨hs, fun t p hp ↦ absurd hp (hpc t p)⟩

theorem loopTop (h : s.strays = []) : InStep s.loopTop := of_idle h (loopTop_ne_job s)

theorem die : InStep s.die := of_idle rfl (by simp [State.die])

/-- An action that leaves the loop where it is. -/
theorem of_pc_eq (h : InStep s) (hs : s'.strays = s.strays) (hpc : s'.pc = s.pc) : InStep s' :=
  ⟨hs.trans h.strays, fun t p hp ↦ h.fits t p (hpc ▸ hp)⟩

theorem afterBeat (h : InStep s) : InStep (s.afterBeat t) := by
  unfold State.afterBeat
  split
  · exact loopTop h.strays
  · next hpc => exact of_job h.strays rfl (by simp [JobPc.Fits, Task.raised, hpc])
  · next hpc => exact of_job h.strays rfl (by simp [JobPc.Fits, Task.done, hpc])
  · exact of_job h.strays rfl trivial

/-- An event of the task in flight: the branches other than the wait are for finished
tasks, which have no events. -/
theorem task (h : InStep s) {p : JobPc} {e : TaskEv} {r : Redis} {pc : TaskPc}
    (hpc : s.pc = .job t p) (hm : TaskMove s.redis t e r pc) :
    InStep { s with redis := r, pc := .job { t with pc := pc } p } := by
  have hfit := h.fits t p hpc
  have hd := hm.not_done
  refine of_job h.strays rfl ?_
  cases p with
  | wait | beat => trivial
  | failGet | failSet => cases (Task.done_of_raised hfit).symm.trans hd
  | requeueGet | requeueSet | requeuePush => cases hfit.symm.trans hd

theorem calm (h : InStep s) (hc : Calm s a s') : InStep s' := by
  cases hc with
  | enqueue | expire | sweepGet | sweepSet => exact h.of_pc_eq rfl rfl
  | start | startBeat | warm | loopBeat | pop | requeuePush => exact of_idle h.strays (by simp)
  | readyBeat | popEmpty | fetchNone | wakeUp => exact loopTop h.strays
  | jobBeat => exact h.afterBeat
  | fetch | wake => exact of_job h.strays rfl trivial
  | failGet hpc | requeueGet hpc | requeueSet hpc =>
      have hfit := h.fits _ _ hpc
      exact of_job h.strays rfl hfit
  | failSet hpc =>
      -- the task left behind has raised, so it is no stray
      have hd := Task.done_of_raised (h.fits _ _ hpc)
      exact loopTop (by simp [hd, h.strays])
  | die => exact die
  | sigterm =>
      unfold State.requestShutdown
      split
      · next t p hpc =>
          have hfit := h.fits _ _ hpc
          exact of_job h.strays rfl (by cases p <;> exact hfit)
      · exact h.of_pc_eq rfl rfl
  | task hpc hc => exact h.task hpc (.calm hc)

theorem step (h : InStep s) (ha : ¬BeatLost s a) (hn : Jobs.step s a = some s') : InStep s' := by
  cases Move.of_step hn with
  | calm hc => exact h.calm hc
  | beatLost hpc =>
      -- the guard: the only error this branch sees is that of a failed task
      exact of_job h.strays rfl (by simpa [BeatLost, hpc, JobPc.Fits] using ha)
  | popLost | fetchLost => exact of_idle h.strays (by simp)
  | popTimeout => exact loopTop h.strays
  | beatDies | failGetLost | failSetLost | requeueGetLost | requeueSetLost | requeuePushLost =>
      exact die
  | taskLost hpc hr => exact h.task hpc (.lost hr)
  | stray hs => simp [h.strays] at hs

/-- The tasks of a worker that is in step. -/
theorem pending_eq (h : InStep s) :
    s.pending = match s.pc with | .job t _ => [t].filter (!·.done) | _ => [] := by
  unfold State.pending State.tasks
  split <;> simp [h.strays]

theorem serial (h : InStep s) : Serial s where
  one := by
    rw [h.pending_eq]
    split
    · exact List.length_filter_le _ _
    · exact Nat.zero_le _
  dequeue hp := by
    rw [h.pending_eq]
    rcases hp with hp | ⟨j, hp⟩ <;> simp [hp]
  failed a s' j hn hns hst hj := by
    rcases step_jobs hn with he | ⟨k, e, hw, he⟩
    · exact absurd (congrFun he j) hj
    by_cases hk : j = k
    · subst hk
      have hst : (e.map fun e ↦ e.job.status) = some .failed := by
        simpa [Redis.status, Redis.get, he, Function.comp_def] using hst
      cases hw with
      | fail hpc => exact ⟨_, _, hpc, rfl, h.fits _ _ hpc⟩
      | sweep => exact absurd rfl (hns _ _)
      | enqueue => simp [Redis.enqueue] at hst
      | expire | requeue | run | done => simp at hst
    · exact absurd (by rw [he, Function.update_of_ne hk]) hj

end InStep

/-- A lost heartbeat records the job in flight as `failed`, whatever its task has come to,
and a pending task is left running while the loop goes on. -/
theorem beatLost_fails (h : BeatLost s a) :
    ∃ t s₁ s₂ s₃, t ∈ s.tasks ∧ t.raised = false ∧ step s a = some s₁ ∧
      step s₁ (.fail .ok) = some s₂ ∧ step s₂ (.fail .ok) = some s₃ ∧
      s₃.redis.status t.job.jobId = some .failed ∧
      (∀ u p, s₃.pc ≠ .job u p) ∧ (t.done = false → t ∈ s₃.pending) := by
  unfold BeatLost at h
  split at h
  · next t b hpc =>
      refine ⟨t, _, _, _, mem_tasks hpc, h, by simp [step, State.beat, hpc]; rfl,
        by simp [step, State.fail]; rfl, by simp [step, State.fail]; rfl, ?_, ?_, ?_⟩
      · simp [State.leave, State.loopTop, Redis.status, Redis.get, Redis.set, Reply.applied]
      · exact loopTop_ne_job _
      · intro hd
        simp [State.pending, State.leave, hd]
  · cases h

/-- **The serial worker**, exactly as far as it holds.  Along every run in which no
heartbeat of the wait raises over a task that has not failed, the worker is serial in
every state; and from any of these states such a heartbeat leads, in two more commands,
to a job recorded as `failed` whose handler has not raised. -/
theorem serial_of_no_beatLost (s : State)
    (h : system.Reach (fun s a ↦ ¬BeatLost s a) s) :
    Serial s ∧ ∀ a, BeatLost s a → ∃ t s₁ s₂ s₃, t ∈ s.tasks ∧ t.raised = false ∧
      step s a = some s₁ ∧ step s₁ (.fail .ok) = some s₂ ∧ step s₂ (.fail .ok) = some s₃ ∧
      s₃.redis.status t.job.jobId = some .failed ∧
      (∀ u p, s₃.pc ≠ .job u p) ∧ (t.done = false → t ∈ s₃.pending) := by
  have hinv : InStep s :=
    h.invariant (InStep.of_idle rfl (by simp [system, State.init]))
      fun _ _ _ hs ha hn ↦ hs.step ha hn
  exact ⟨hinv.serial, fun a ha ↦ beatLost_fails ha⟩

/-- The loop dequeues the next job and schedules its handler. -/
def takeJob : List Act := [.beat .ok, .pop .ok, .fetch .ok]

/-- Two jobs; the first fails, and the heartbeat after it is lost as well, which does no
harm; the second one is in its body when the run ends. -/
def failingRun : List Act :=
  [.enqueue 0 .adapter ⟨some 0, false⟩, .enqueue 1 .index ⟨some 1, false⟩,
    .start, .beat .ok, .warm, .beat .ok] ++ takeJob ++
  [.task .start, .task (.reply .ok), .task (.reply .ok), .task (.bodyRaise none),
    .wake, .beat (.error false), .fail .ok, .fail .ok] ++ takeJob ++
  [.task .start, .task (.reply .ok), .task (.reply .ok)]

/-- The hypothesis of `serial_of_no_beatLost` is met by a run with a lost heartbeat. -/
theorem serial_failingRun : ∃ s, system.Reach (fun s a ↦ ¬BeatLost s a) s ∧
    s.redis.status 0 = some .failed ∧ s.redis.status 1 = some .running ∧ Serial s := by
  obtain ⟨s, hs, hr⟩ := System.Reach.of_exec (S := system) (g := fun s a ↦ ¬BeatLost s a)
    (l := failingRun) (f := fun s ↦ (s.redis.status 0, s.redis.status 1))
    (b := (some .failed, some .running)) (by decide)
  obtain ⟨h0, h1⟩ := Prod.mk.inj hr
  exact ⟨s, hs, h0, h1, (serial_of_no_beatLost s hs).1⟩

/-- One heartbeat is lost while the first of two jobs is in its body. -/
def beatLostRun : List Act :=
  [.enqueue 0 .adapter ⟨some 0, false⟩, .enqueue 1 .index ⟨some 1, false⟩,
    .start, .beat .ok, .warm, .beat .ok] ++ takeJob ++
  [.task .start, .task (.reply .ok), .task (.reply .ok),
    .wake, .beat (.error false), .fail .ok, .fail .ok] ++ takeJob

/-- Job 0 is recorded as `failed` while its handler is still at work, and a second
handler runs beside it. -/
theorem beatLostRun_overlaps :
    ∃ s, system.Reachable s ∧ s.redis.status 0 = some .failed ∧
      s.pending.map (fun t ↦ (t.job.jobId, t.pc)) = [(1, .dispatch), (0, .body)] ∧ ¬Serial s := by
  obtain ⟨s, hs, hr⟩ := System.Reach.of_exec (S := system) (g := fun _ _ ↦ True)
    (l := beatLostRun)
    (f := fun s ↦ (s.redis.status 0, s.pending.map fun t ↦ (t.job.jobId, t.pc)))
    (b := (some .failed, [(1, .dispatch), (0, .body)])) (by decide)
  obtain ⟨h0, hp⟩ := Prod.mk.inj hr
  refine ⟨s, hs, h0, hp, ?_⟩
  intro h
  have hlen : s.pending.length = 2 := by simpa using congrArg List.length hp
  have := h.one
  omega

end Adapta.Jobs
