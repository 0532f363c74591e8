import Adapta.Jobs.Serial

/-!
# Queued means in the queue

`_job_is_live` takes a job whose metadata says `queued` for live, which is right only if
every queued job will be seen by a worker.  The list alone does not tell: `BLPOP` takes
the id off it before the handler records `running`, and `requeue` records `queued`
before it pushes the id back.  In between, the job is *in the worker's hands*.

`queued_in_list_or_hands` follows one job through every run, with crashes, Redis errors,
restarts and concurrent sweeps: as long as the worker does not die, and no command of the
loop fails, with this job in its hands, queued and off the list (`Drops`), a queued job is
in the list or in the hands of the worker, and in the latter case its handler is not past
its `running` write.
-/

namespace Adapta.Jobs

open Lib

variable {s s' : State} {a : Act} {j k : JobId} {t t' : Task}

/-! ## Metadata names its key -/

/-- The read of an `update_status` call on `j` that a task is about to write back. -/
def TaskPc.raws (j : JobId) : TaskPc → List (JobId × Option JobMeta)
  | .runSet raw | .doneSet raw => [(j, raw)]
  | .dispatch | .runGet | .body | .doneGet | .after | .finished _ => []

def Task.raws (t : Task) : List (JobId × Option JobMeta) := t.pc.raws t.job.jobId

/-- The same for the failure and shutdown branches of the loop. -/
def JobPc.raws (j : JobId) : JobPc → List (JobId × Option JobMeta)
  | .failSet _ raw | .requeueSet raw => [(j, raw)]
  | .wait | .beat | .failGet _ | .requeueGet | .requeuePush => []

def Pc.raws : Pc → List (JobId × Option JobMeta)
  | .job t p => t.raws ++ p.raws t.job.jobId
  | _ => []

/-- All reads that are still to be written back, with their keys. -/
def State.raws (s : State) : List (JobId × Option JobMeta) :=
  s.sweeps ++ s.strays.flatMap Task.raws ++ s.pc.raws

/-- Metadata carries the id of the key it is stored under, or was read from. -/
structure Named (s : State) : Prop where
  jobs : ∀ j, Names j (s.redis.get j)
  raws : ∀ x ∈ s.raws, Names x.1 x.2

@[simp] theorem loopTop_raws (s : State) : s.loopTop.pc.raws = [] := by
  simp only [State.loopTop]
  split <;> rfl

theorem TaskMove.mem_raws {r r' : Redis} {e : TaskEv} {pc : TaskPc} (h : TaskMove r t e r' pc) :
    ∀ x ∈ Task.raws { t with pc := pc }, x = (t.job.jobId, r.get t.job.jobId) := by
  intro x hx
  cases h with
  | lost => cases hx
  | calm hc =>
      cases hc with
      | runGet | doneGet => exact List.mem_singleton.mp hx
      | doneSet _ hpc => rcases hpc with rfl | rfl <;> cases hx
      | start | unhandled | runSet | noTarget | bodyReturn | bodyRaise | afterReturn | cancel =>
          cases hx

theorem raws_of_mem_tasks (ht : t ∈ s.tasks) {x : JobId × Option JobMeta} (hx : x ∈ t.raws) :
    x ∈ s.raws := by
  unfold State.tasks at ht
  simp only [State.raws, List.mem_append, List.mem_flatMap]
  split at ht
  · next hpc =>
      rcases List.mem_cons.mp ht with rfl | ht
      · exact .inr (by simp [hpc, Pc.raws, hx])
      · exact .inl (.inr ⟨t, ht, hx⟩)
  · exact .inl (.inr ⟨t, ht, hx⟩)

/-- Only the loop moves: its reads were there before, or are fresh. -/
theorem mem_raws_of_pc {x : JobId × Option JobMeta} (hx : x ∈ s'.raws)
    (hw : s'.sweeps = s.sweeps) (hs : s'.strays = s.strays)
    (hp : ∀ x ∈ s'.pc.raws, x ∈ s.pc.raws ∨ ∃ j, x = (j, s.redis.get j)) :
    x ∈ s.raws ∨ ∃ j, x = (j, s.redis.get j) := by
  simp only [State.raws, List.mem_append, hw, hs] at hx ⊢
  rcases hx with hx | hx
  · exact .inl (.inl hx)
  · exact (hp x hx).imp_left .inr

/-- The loop moves on, or dies, and handles no job afterwards. -/
theorem mem_raws_of_idle {x : JobId × Option JobMeta} (hx : x ∈ s'.raws)
    (hw : s'.sweeps = s.sweeps) (hs : ∀ t ∈ s'.strays, t ∈ s.tasks) (hp : s'.pc.raws = []) :
    x ∈ s.raws ∨ ∃ j, x = (j, s.redis.get j) := by
  left
  simp only [State.raws, List.mem_append, hp, List.not_mem_nil, or_false, hw] at hx
  rcases hx with hx | hx
  · simp [State.raws, hx]
  · obtain ⟨t, ht, hx⟩ := List.mem_flatMap.mp hx
    exact raws_of_mem_tasks (hs t ht) hx

theorem strays_subset (s : State) : ∀ t ∈ s.strays, t ∈ s.tasks := by
  intro t ht
  unfold State.tasks
  split <;> simp [ht]

/-- An event of the task in flight. -/
theorem mem_raws_of_task {x : JobId × Option JobMeta} {p : JobPc} {e : TaskEv} {r : Redis}
    {pc : TaskPc} (hpc : s.pc = .job t p) (hm : TaskMove s.redis t e r pc)
    (hx : x ∈ State.raws { s with redis := r, pc := .job { t with pc := pc } p }) :
    x ∈ s.raws ∨ ∃ j, x = (j, s.redis.get j) := by
  refine mem_raws_of_pc hx rfl rfl ?_
  intro x hx
  simp only [Pc.raws, List.mem_append] at hx
  rcases hx with hx | hx
  · exact .inr ⟨_, hm.mem_raws x hx⟩
  · exact .inl (by simp [hpc, Pc.raws, hx])

theorem mem_raws_of_calm (h : Calm s a s') {x : JobId × Option JobMeta} (hx : x ∈ s'.raws) :
    x ∈ s.raws ∨ ∃ j, x = (j, s.redis.get j) := by
  cases h with
  | enqueue | expire => exact .inl hx
  | sweepGet j =>
      simp only [State.raws, List.cons_append, List.mem_cons] at hx ⊢
      rcases hx with rfl | hx
      · exact .inr ⟨_, rfl⟩
      · exact .inl hx
  | sweepSet =>
      left
      simp only [State.raws, List.mem_append] at hx ⊢
      exact hx.imp_left (Or.imp_left List.mem_of_mem_erase)
  | start | startBeat | warm | loopBeat | pop | fetch | requeuePush =>
      exact mem_raws_of_idle hx rfl (strays_subset s) rfl
  | readyBeat | popEmpty | fetchNone | wakeUp =>
      exact mem_raws_of_idle hx rfl (strays_subset s) (by simp)
  | die => exact mem_raws_of_idle hx rfl (by simp [State.die]) rfl
  | jobBeat hpc =>
      unfold State.afterBeat at hx
      split at hx
      · exact mem_raws_of_idle hx rfl (strays_subset s) (by simp)
      all_goals exact mem_raws_of_pc hx rfl rfl (by simp +contextual [hpc, Pc.raws, JobPc.raws])
  | wake hpc => exact mem_raws_of_pc hx rfl rfl (by simp +contextual [hpc, Pc.raws, JobPc.raws])
  | failGet hpc | requeueGet hpc =>
      refine mem_raws_of_pc hx rfl rfl ?_
      intro x hx
      simp only [Pc.raws, JobPc.raws, List.mem_append, List.mem_singleton] at hx
      rcases hx with hx | rfl
      · exact .inl (by simp [hpc, Pc.raws, hx])
      · exact .inr ⟨_, rfl⟩
  | failSet hpc =>
      refine mem_raws_of_idle hx rfl ?_ (by simp [State.leave])
      intro u hu
      simp only [State.leave, State.loopTop] at hu
      split at hu
      · exact strays_subset s u hu
      · simpa [State.tasks, hpc] using hu
  | requeueSet hpc =>
      refine mem_raws_of_pc hx rfl rfl fun x hx ↦ .inl ?_
      simp only [Pc.raws, JobPc.raws, List.append_nil] at hx
      simp [hpc, Pc.raws, hx]
  | sigterm =>
      unfold State.requestShutdown at hx
      split at hx
      · next t p hpc =>
          exact mem_raws_of_pc hx rfl rfl (by simp +contextual [hpc, Pc.raws, Task.raws])
      · exact .inl hx
  | task hpc hc => exact mem_raws_of_task hpc (.calm hc) hx

/-- A read that a step leaves to be written back was there before, or is fresh. -/
theorem mem_raws_of_step (h : step s a = some s') {x : JobId × Option JobMeta} (hx : x ∈ s'.raws) :
    x ∈ s.raws ∨ ∃ j, x = (j, s.redis.get j) := by
  cases Move.of_step h with
  | calm hc => exact mem_raws_of_calm hc hx
  | beatLost hpc => exact mem_raws_of_pc hx rfl rfl (by simp +contextual [hpc, Pc.raws, JobPc.raws])
  | popLost | fetchLost => exact mem_raws_of_idle hx rfl (strays_subset s) rfl
  | popTimeout => exact mem_raws_of_idle hx rfl (strays_subset s) (by simp)
  | beatDies | failGetLost | failSetLost | requeueGetLost | requeueSetLost | requeuePushLost =>
      exact mem_raws_of_idle hx rfl (by simp [State.die]) rfl
  | taskLost hpc hr => exact mem_raws_of_task hpc (.lost hr) hx
  | stray hn hm =>
      simp only [State.raws, List.mem_append, List.mem_flatMap] at hx ⊢
      obtain (hx | ⟨u, hu, hx⟩) | hx := hx
      · exact .inl (.inl (.inl hx))
      · rcases List.mem_or_eq_of_mem_set hu with hu | rfl
        · exact .inl (.inl (.inr ⟨u, hu, hx⟩))
        · exact .inr ⟨_, hm.mem_raws x hx⟩
      · exact .inl (.inr hx)

/-- What is written under a key names it, if all reads do. -/
theorem Writes.names (hs : Named s) {e : Option Entry} (h : Writes s a j e) :
    Names j (e.map Entry.job) := by
  have hmem : ∀ {k raw u}, (k, raw) ∈ s.raws →
      Names k ((some (updateMeta raw k u)).map Entry.job) := by
    rintro k raw u hx m ⟨⟩
    exact updateMeta_jobId (hs.raws _ hx) _
  cases h with
  | enqueue k p =>
      intro m hm
      simp only [Redis.enqueue, Function.update_self, Option.map_some, Option.some.injEq] at hm
      rw [← hm]
  | expire => rintro m ⟨⟩
  | sweep hx => exact hmem (by simp [State.raws, hx])
  | fail hpc | requeue hpc => exact hmem (by simp [State.raws, hpc, Pc.raws, JobPc.raws])
  | run ht hpc | done ht hpc =>
      exact hmem (raws_of_mem_tasks ht (by simp [Task.raws, hpc, TaskPc.raws]))

namespace Named

protected theorem init : Named State.init :=
  ⟨fun j m hm ↦ by simp [State.init, Redis.empty, Redis.get] at hm, fun x hx ↦ by
    simp [State.init, State.raws, Pc.raws] at hx⟩

theorem step (h : Named s) (hn : Jobs.step s a = some s') : Named s' where
  jobs j := by
    rcases step_jobs hn with he | ⟨k, e, hw, he⟩
    · simpa [Redis.get, he] using h.jobs j
    · by_cases hk : j = k
      · subst hk
        simpa [Redis.get, he] using hw.names h
      · simpa [Redis.get, he, hk] using h.jobs j
  raws x hx := by
    rcases mem_raws_of_step hn hx with hx | ⟨j, rfl⟩
    · exact h.raws x hx
    · exact h.jobs j

end Named

/-! ## Where a queued job is -/

/-- Whether the loop has taken `j` off the list and is not done with it. -/
def State.holds (s : State) (j : JobId) : Prop :=
  match s.pc with
  | .fetching k => k = j
  | .job t _ => t.job.jobId = j
  | _ => False

theorem holds_iff_hand {s : State} {j : JobId} : s.holds j ↔ s.pc.hand = some j := by
  unfold State.holds
  cases s.pc with
  | fetching k => simp [Pc.hand]
  | job t p => simp [Pc.hand]
  | _ => simp [Pc.hand]

instance (s : State) (j : JobId) : Decidable (s.holds j) :=
  decidable_of_iff _ holds_iff_hand.symm

/-- A `dequeue` call is in progress. -/
def State.dequeuing (s : State) : Bool :=
  match s.pc with
  | .popping | .fetching _ => true
  | _ => false

def JobPc.requeuing : JobPc → Bool
  | .requeueGet | .requeueSet _ | .requeuePush => true
  | .wait | .beat | .failGet _ | .failSet _ _ => false

/-- A `requeue` call is in progress. -/
def State.requeuing (s : State) : Bool :=
  match s.pc with
  | .job _ p => p.requeuing
  | _ => false

/-- The task has recorded `running`, and has not failed since. -/
def Task.running (t : Task) : Bool :=
  match t.pc with
  | .body | .doneGet | .doneSet _ | .after | .finished .returned => true
  | .dispatch | .runGet | .runSet _ | .finished (.raised _) | .finished .cancelled => false

/-- The job's metadata says `queued`, and the list does not have it. -/
def Unlisted (j : JobId) (s : State) : Prop := s.redis.status j = some .queued ∧ j ∉ s.redis.queue

instance (j : JobId) (s : State) : Decidable (Unlisted j s) :=
  inferInstanceAs (Decidable (_ ∧ _))

/-- `a` takes `j` away from the worker: the process dies with the job in its hands, queued
and off the list, or a command of the loop fails that `dequeue`, the failure branch or
`requeue` has issued for the job. -/
def Drops (j : JobId) (s : State) : Act → Prop
  | .crash => s.holds j ∧ Unlisted j s
  | .pop (.error true) | .popTimeout true =>
      s.redis.queue.head? = some j ∧ s.redis.status j = some .queued ∧ j ∉ s.redis.queue.tail
  | .fetch (.error _) | .fail (.error _) => s.holds j ∧ Unlisted j s
  -- its second command makes the job queued
  | .requeue (.error _) => s.holds j ∧ j ∉ s.redis.queue
  | _ => False

instance (j : JobId) (s : State) (a : Act) : Decidable (Drops j s a) := by
  unfold Drops
  split <;> infer_instance

/-- The invariant for one job: while it is queued it is in the list or in the worker's
hands, and in the list again if its handler has recorded `running` since. -/
structure Kept (j : JobId) (s : State) : Prop where
  queued : s.redis.status j = some .queued → j ∈ s.redis.queue ∨ s.holds j
  running : ∀ t p, s.pc = .job t p → t.job.jobId = j → p.requeuing = false → t.running = true →
    s.redis.status j = some .queued → j ∈ s.redis.queue

/-- A step that makes a job queued puts it in the list or has it in hand. -/
theorem queued_of_step (hn : step s a = some s') (ha : ¬Drops j s a)
    (h : s'.redis.status j = some .queued) :
    s.redis.status j = some .queued ∨ j ∈ s'.redis.queue ∨ (s'.requeuing = true ∧ s'.holds j) := by
  rcases step_jobs hn with he | ⟨k, e, hw, he⟩
  · exact .inl (by simpa [Redis.status, Redis.get, he] using h)
  by_cases hk : j = k
  · subst hk
    have hst : (e.map fun e ↦ e.job.status) = some .queued := by
      simpa [Redis.status, Redis.get, he, Function.comp_def] using h
    cases hw with
    | enqueue k p =>
        simp only [step, Option.some.injEq] at hn
        subst hn
        exact .inr (.inl (by simp [Redis.enqueue]))
    | @requeue t raw r hpc =>
        simp only [step, State.requeue, hpc] at hn
        cases r with
        | ok =>
            simp at hn
            subst hn
            exact .inr (.inr ⟨by simp [State.requeuing, JobPc.requeuing], by simp [State.holds]⟩)
        | error b =>
            have hmem : t.job.jobId ∈ s.redis.queue :=
              not_and_not_right.mp ha (by simp [State.holds, hpc])
            simp only [Option.some.injEq] at hn
            subst hn
            refine .inr (.inl ?_)
            cases b with
            | false => exact hmem
            | true => exact hmem
    | expire | sweep | fail | run | done => simp at hst
  · exact .inl (by simpa [Redis.status, Redis.get, he, hk] using h)

theorem TaskMove.queue_eq {r r' : Redis} {e : TaskEv} {pc : TaskPc} (h : TaskMove r t e r' pc) :
    r'.queue = r.queue := by
  obtain ⟨b, rfl⟩ := h.redis_eq
  exact Task.write_queue r b

theorem mem_queue_of_calm (hc : Calm s a s') (h : j ∈ s.redis.queue) :
    j ∈ s'.redis.queue ∨ (s.pc = .popping ∧ s'.pc = .fetching j) := by
  cases hc with
  | enqueue => exact .inl (List.mem_append_left _ h)
  | requeuePush => exact .inl (List.mem_cons_of_mem _ h)
  | pop hpc hq =>
      rw [hq, List.mem_cons] at h
      rcases h with rfl | h
      · exact .inr ⟨hpc, rfl⟩
      · exact .inl (by simpa [Redis.pop, hq] using h)
  | jobBeat => exact .inl (by simpa using h)
  | sigterm => exact .inl (by simpa using h)
  | task _ hc => exact .inl ((TaskMove.calm hc).queue_eq ▸ h)
  | expire | sweepGet | sweepSet | start | startBeat | warm | readyBeat | loopBeat | popEmpty
  | fetchNone | fetch | wakeUp | wake | failGet | failSet | requeueGet | requeueSet | die =>
      exact .inl h

/-- A queued job leaves the list only into the worker's hands. -/
theorem mem_queue_of_step (hn : step s a = some s') (ha : ¬Drops j s a) (h : j ∈ s.redis.queue)
    (hst : s.redis.status j = some .queued) :
    j ∈ s'.redis.queue ∨ (s.pc = .popping ∧ s'.pc = .fetching j) := by
  have htail : ¬(s.redis.queue.head? = some j ∧ s.redis.status j = some .queued ∧
      j ∉ s.redis.queue.tail) → j ∈ s.redis.queue.tail := by
    intro hno
    by_contra hnot
    refine hno ⟨?_, hst, hnot⟩
    cases hq : s.redis.queue with
    | nil => simp [hq] at h
    | cons k q =>
        rw [hq, List.tail_cons] at hnot
        rw [hq] at h
        rw [List.head?_cons, (List.mem_cons.mp h).resolve_right hnot]
  cases Move.of_step hn with
  | calm hc => exact mem_queue_of_calm hc h
  | @popLost b =>
      cases b with
      | false => exact .inl h
      | true => exact .inl (htail ha)
  | popTimeout => exact .inl (htail ha)
  | @requeuePushLost _ b =>
      cases b with
      | false => exact .inl h
      | true => exact .inl (List.mem_cons_of_mem _ h)
  | @failSetLost _ _ _ b | @requeueSetLost _ _ b => cases b <;> exact .inl h
  | taskLost _ hr => exact .inl ((TaskMove.lost hr).queue_eq ▸ h)
  | stray _ hm => exact .inl (hm.queue_eq ▸ h)
  | beatDies | beatLost | fetchLost | failGetLost | requeueGetLost => exact .inl h

/-- The task of a job that has just reached `running` has recorded it. -/
theorem TaskMove.running_of_move {r r' : Redis} {e : TaskEv} {pc : TaskPc}
    (h : TaskMove r t e r' pc) (hr : Task.running { t with pc := pc } = true) :
    t.running = true ∨ r'.status t.job.jobId = some .running := by
  cases h with
  | lost => cases hr
  | calm hc =>
      cases hc with
      | runSet => exact .inr (by simp [Redis.status, Redis.get, Redis.set])
      | bodyReturn hpc | doneGet hpc | doneSet hpc | afterReturn hpc =>
          exact .inl (by simp [Task.running, hpc])
      | start | unhandled | runGet | noTarget | bodyRaise | cancel => cases hr

theorem holds_of_pc_eq (hpc : s'.pc = s.pc) (h : s.holds j) : s'.holds j := by
  simpa [State.holds, hpc] using h

/-- Where a job that is in the worker's hands is after a step, unless it is dropped: still
there, or in the list, or it is no longer queued, or its task has returned. -/
def Placed (j : JobId) (s s' : State) : Prop :=
  s'.holds j ∨ j ∈ s'.redis.queue ∨ s'.redis.status j ≠ some .queued ∨
    ∃ t, s.pc = .job t .beat ∧ t.job.jobId = j ∧ t.running = true ∧ s'.redis = s.redis

/-- A job that was not both queued and off the list is placed after a step that leaves the list
and makes no job queued. -/
theorem placed_of_kept (hno : ¬(s.holds j ∧ Unlisted j s)) (h : s.holds j)
    (hst : s'.redis.status j = some .queued → s.redis.status j = some .queued)
    (hq : s'.redis.queue = s.redis.queue) : Placed j s s' := by
  by_cases hmem : j ∈ s.redis.queue
  · exact .inr (.inl (hq ▸ hmem))
  · exact .inr (.inr (.inl fun hs' ↦ hno ⟨h, hst hs', hmem⟩))

theorem placed_of_calm (hs : Named s) (hc : Calm s a s') (ha : ¬Drops j s a) (h : s.holds j) :
    Placed j s s' := by
  have hh := holds_iff_hand.mp h
  cases hc with
  | enqueue | expire | sweepGet | sweepSet => exact .inl (holds_of_pc_eq rfl h)
  | start hpc | startBeat hpc | warm hpc | readyBeat hpc | loopBeat hpc | pop hpc | popEmpty hpc
  | wakeUp hpc =>
      rw [hpc] at hh
      cases hh
  | jobBeat hpc =>
      rw [hpc] at hh
      cases hh
      unfold State.afterBeat
      split
      · next hret => exact .inr (.inr (.inr ⟨_, hpc, rfl, by simp [Task.running, hret], rfl⟩))
      all_goals exact .inl rfl
  | fetchNone hpc hm =>
      rw [hpc] at hh
      cases hh
      exact .inr (.inr (.inl (by simp [State.loopTop, Redis.status, hm])))
  | fetch hpc hm =>
      rw [hpc] at hh
      cases hh
      exact .inl (hs.jobs _ _ hm)
  | wake hpc | failGet hpc | requeueGet hpc | requeueSet hpc =>
      rw [hpc] at hh
      exact .inl (holds_iff_hand.mpr hh)
  | failSet hpc =>
      rw [hpc] at hh
      cases hh
      refine .inr (.inr (.inl ?_))
      simp [State.leave, State.loopTop, Redis.status, Redis.get, Redis.set]
  | requeuePush hpc =>
      rw [hpc] at hh
      cases hh
      exact .inr (.inl List.mem_cons_self)
  | die hd =>
      rcases hd with rfl | ⟨hd, -⟩
      · exact placed_of_kept ha h id rfl
      · cases hh.symm.trans hd
  | sigterm =>
      unfold State.requestShutdown
      split
      · next hpc => exact .inl (by simpa [State.holds, hpc] using h)
      · exact .inl (holds_of_pc_eq rfl h)
  | task hpc =>
      rw [hpc] at hh
      exact .inl (holds_iff_hand.mpr hh)

/-- A job leaves the worker's hands into the list, or when it is no longer queued, or when
its task has returned. -/
theorem holds_of_step (hs : Named s) (hn : step s a = some s') (ha : ¬Drops j s a)
    (h : s.holds j) : Placed j s s' := by
  have hh := holds_iff_hand.mp h
  cases Move.of_step hn with
  | calm hc => exact placed_of_calm hs hc ha h
  | beatLost hpc | taskLost hpc =>
      rw [hpc] at hh
      exact .inl (holds_iff_hand.mpr hh)
  | beatDies hpc =>
      rcases hpc with hpc | hpc | hpc <;> rw [hpc] at hh <;> cases hh
  | popLost hpc | popTimeout hpc =>
      rw [hpc] at hh
      cases hh
  | fetchLost | failGetLost => exact placed_of_kept ha h id rfl
  | @failSetLost t _ _ b hpc =>
      rw [hpc] at hh
      cases hh
      cases b with
      | false => exact placed_of_kept ha h id rfl
      | true =>
          refine .inr (.inr (.inl ?_))
          simp [State.die, Redis.status, Redis.get, Redis.set]
  | requeueGetLost => exact .inr (.inl (not_and_not_right.mp ha h))
  | @requeueSetLost _ _ b =>
      have hmem : j ∈ s.redis.queue := not_and_not_right.mp ha h
      refine .inr (.inl ?_)
      cases b with
      | false => exact hmem
      | true => exact hmem
  | @requeuePushLost _ b =>
      have hmem : j ∈ s.redis.queue := not_and_not_right.mp ha h
      refine .inr (.inl ?_)
      cases b with
      | false => exact hmem
      | true => exact List.mem_cons_of_mem _ hmem
  | stray => exact .inl (holds_of_pc_eq rfl h)

theorem job_of_calm (hc : Calm s a s') {p' : JobPc} (hpc' : s'.pc = .job t' p')
    (hp' : p'.requeuing = false) (hr : t'.running = true) :
    ∃ t p, s.pc = .job t p ∧ t.job = t'.job ∧ p.requeuing = false ∧
      (t.running = true ∨ s'.redis.status t.job.jobId = some .running) := by
  cases hc with
  | enqueue | expire | sweepGet | sweepSet => exact ⟨t', p', hpc', rfl, hp', .inl hr⟩
  | start | startBeat | warm | loopBeat | pop | requeuePush | die => cases hpc'
  | readyBeat | popEmpty | fetchNone | wakeUp | failSet =>
      exact absurd hpc' (loopTop_ne_job _ _ _)
  | jobBeat hpc =>
      unfold State.afterBeat at hpc'
      split at hpc'
      · exact absurd hpc' (loopTop_ne_job _ _ _)
      all_goals
        cases hpc'
        exact ⟨_, _, hpc, rfl, rfl, .inl hr⟩
  | fetch =>
      cases hpc'
      cases hr
  | wake hpc | failGet hpc =>
      cases hpc'
      exact ⟨_, _, hpc, rfl, rfl, .inl hr⟩
  | requeueGet | requeueSet =>
      cases hpc'
      cases hp'
  | sigterm =>
      unfold State.requestShutdown at hpc'
      split at hpc'
      · next t p hpc =>
          cases hpc'
          exact ⟨t, _, hpc, rfl, hp', .inl hr⟩
      · exact ⟨t', p', hpc', rfl, hp', .inl hr⟩
  | task hpc hc =>
      cases hpc'
      exact ⟨_, _, hpc, rfl, hp', (TaskMove.calm hc).running_of_move hr⟩

/-- Where the job the loop handles comes from. -/
theorem job_of_step (hn : step s a = some s') {p' : JobPc} (hpc' : s'.pc = .job t' p')
    (hp' : p'.requeuing = false) (hr : t'.running = true) :
    ∃ t p, s.pc = .job t p ∧ t.job = t'.job ∧ p.requeuing = false ∧
      (t.running = true ∨ s'.redis.status t.job.jobId = some .running) := by
  cases Move.of_step hn with
  | calm hc => exact job_of_calm hc hpc' hp' hr
  | beatLost hpc =>
      cases hpc'
      exact ⟨_, _, hpc, rfl, rfl, .inl hr⟩
  | popTimeout => exact absurd hpc' (loopTop_ne_job _ _ _)
  | taskLost =>
      cases hpc'
      cases hr
  | stray => exact ⟨t', p', hpc', rfl, hp', .inl hr⟩
  | beatDies | popLost | fetchLost | failGetLost | failSetLost | requeueGetLost | requeueSetLost
  | requeuePushLost => cases hpc'

namespace Kept

protected theorem init : Kept j State.init :=
  ⟨fun h ↦ by simp [State.init, Redis.status, Redis.get, Redis.empty] at h,
    fun t p hp ↦ by simp [State.init] at hp⟩

theorem step (hs : Named s) (h : Kept j s) (ha : ¬Drops j s a) (hn : Jobs.step s a = some s') :
    Kept j s' where
  queued hq := by
    rcases queued_of_step hn ha hq with hq₀ | hmem | ⟨-, hh⟩
    · rcases h.queued hq₀ with hmem | hh
      · rcases mem_queue_of_step hn ha hmem hq₀ with hmem | ⟨-, hpc⟩
        · exact .inl hmem
        · exact .inr (by simp [State.holds, hpc])
      · rcases holds_of_step hs hn ha hh with hh | hmem | hne | ⟨t, hpc, hj, hr, he⟩
        · exact .inr hh
        · exact .inl hmem
        · exact absurd hq hne
        · exact .inl (he ▸ h.running t _ hpc hj rfl hr hq₀)
    · exact .inl hmem
    · exact .inr hh
  running t' p' hpc' hj hp' hr hq := by
    obtain ⟨t, p, hpc, hjob, hp, hrun⟩ := job_of_step hn hpc' hp' hr
    have hj' : t.job.jobId = j := hjob ▸ hj
    rcases queued_of_step hn ha hq with hq₀ | hmem | ⟨hre, -⟩
    · rcases hrun with hrun | hst
      · have hmem := h.running t p hpc hj' hp hrun hq₀
        rcases mem_queue_of_step hn ha hmem hq₀ with hmem | ⟨hpop, -⟩
        · exact hmem
        · cases hpc.symm.trans hpop
      · rw [hj', hq] at hst
        cases hst
    · exact hmem
    · simp [State.requeuing, hpc', hp'] at hre

end Kept

/-- **Where a queued job is.**  Take any job, and any run, with crashes, Redis errors,
restarts and sweeps, in which the worker neither dies nor fails a command of its own with
this job in its hands, queued and off the list.  Whenever no `dequeue` and no `requeue` is
in progress, a job whose metadata says `queued` is in the list, or it is the job the live
worker has popped, and then its handler has not got past recording `running`. -/
theorem queued_in_list_or_hands (j : JobId) (s : State)
    (h : system.Reach (fun s a ↦ ¬Drops j s a) s)
    (hd : s.dequeuing = false) (hr : s.requeuing = false)
    (hq : s.redis.status j = some .queued) :
    j ∈ s.redis.queue ∨ ∃ t p, s.pc = .job t p ∧ t.job.jobId = j ∧ t.running = false := by
  have hinv : Named s ∧ Kept j s :=
    h.invariant (P := fun s ↦ Named s ∧ Kept j s) ⟨Named.init, Kept.init⟩
      fun _ _ _ hs ha hn ↦ ⟨hs.1.step hn, hs.2.step hs.1 ha hn⟩
  have hk := hinv.2
  by_cases hmem : j ∈ s.redis.queue
  · exact .inl hmem
  right
  have hh := (hk.queued hq).resolve_left hmem
  unfold State.holds at hh
  split at hh
  · next hpc => simp [State.dequeuing, hpc] at hd
  · next t p hpc =>
      have hp : p.requeuing = false := by simpa [State.requeuing, hpc] using hr
      refine ⟨t, p, hpc, hh, Bool.eq_false_iff.mpr ?_⟩
      intro hrun
      exact hmem (hk.running t p hpc hh hp hrun hq)
  · exact hh.elim

/-- Job 0 is requeued by a shutdown, the worker restarts and dies at once, and the next
one pops the job. -/
def restartRun : List Act :=
  [.enqueue 0 .adapter ⟨some 0, false⟩, .start, .beat .ok, .warm, .beat .ok] ++ takeJob ++
  [.task .start, .sigterm, .task (.cancel false), .wake, .beat .ok, .requeue .ok, .requeue .ok,
    .requeue .ok, .closed, .start, .beat .ok, .crash, .start, .beat .ok, .warm, .beat .ok] ++ takeJob

/-- The hypotheses of `queued_in_list_or_hands` are met by a run with a shutdown and a
crash, which ends with the job in the worker's hands. -/
theorem queued_restartRun : ∃ s, system.Reach (fun s a ↦ ¬Drops 0 s a) s ∧
    s.redis.status 0 = some .queued ∧ s.redis.queue = [] ∧
    (0 ∈ s.redis.queue ∨ ∃ t p, s.pc = .job t p ∧ t.job.jobId = 0 ∧ t.running = false) := by
  obtain ⟨s, hs, hr⟩ := System.Reach.of_exec (S := system) (g := fun s a ↦ ¬Drops 0 s a)
    (l := restartRun)
    (f := fun s ↦ (s.redis.status 0, s.redis.queue, s.dequeuing, s.requeuing))
    (b := (some .queued, [], false, false)) (by decide)
  simp only [Prod.mk.injEq] at hr
  obtain ⟨hst, hq, hd, hre⟩ := hr
  exact ⟨s, hs, hst, hq, queued_in_list_or_hands 0 s hs hd hre hst⟩

/-- A worker has popped the only job, and its handler is about to start. -/
def poppedRun : List Act :=
  [.enqueue 0 .adapter ⟨some 0, false⟩, .start, .beat .ok, .warm, .beat .ok] ++ takeJob

/-- The list alone does not hold the queued jobs: with no call in progress, and before
anything has gone wrong, a job can be queued and off the list. -/
theorem poppedRun_queued_off_list :
    ∃ s, system.Reachable s ∧ s.dequeuing = false ∧ s.requeuing = false ∧
      s.redis.status 0 = some .queued ∧ 0 ∉ s.redis.queue := by
  obtain ⟨s, hs, hr⟩ := System.Reach.of_exec (S := system) (g := fun _ _ ↦ True)
    (l := poppedRun)
    (f := fun s ↦ (s.dequeuing, s.requeuing, s.redis.status 0, s.redis.queue))
    (b := (false, false, some .queued, [])) (by decide)
  simp only [Prod.mk.injEq] at hr
  obtain ⟨hd, hre, hst, hq⟩ := hr
  exact ⟨s, hs, hd, hre, hst, by simp [hq]⟩

end Adapta.Jobs
