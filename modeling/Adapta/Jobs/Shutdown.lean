import Adapta.Jobs.Calm
import Adapta.Lib.Delivery

/-!
# Graceful shutdown

A SIGTERM cancels the job in flight, which goes back to the front of the list, and the
next worker starts with it.  This module shows that nothing else happens to the jobs: as
long as Redis answers and the worker is stopped by signals only (`Graceful`), the list
together with the worker's hands is the line of an abstract serial server
(`Lib.Delivery`), in every state between two Redis commands and across any number of
restarts.  What that server promises, it promises for the queue: no job is lost or doubled,
jobs are first started in the order they were enqueued, and an interrupted job is the next
one started.  The metadata agrees: a job in the list is recorded as `queued`, and one the
worker has finished has a terminal status, until its key expires.

A run is observed by a history variable, the log of what has happened to the jobs.  A job
is started when its handler task takes its first step, requeued when `LPUSH` returns, and
finished when the loop goes on to the next job.
-/

namespace Adapta.Jobs

open Lib

variable {s s' : State} {a : Act} {i j : JobId} {t : Task} {b : Bool}

/-! ## The history -/

/-- What has happened in a run: to the jobs, and to their metadata by itself. -/
structure History where
  log : List (Event JobId)
  /-- The keys that have expired. -/
  expired : List JobId

/-- What a step does to a job. -/
def observe (s : State) : Act → Option (Event JobId)
  | .enqueue j _ _ => some (.enqueued j)
  | .task .start =>
      match s.pc with
      | .job t _ => some (.started t.job.jobId)
      | _ => none
  | .requeue .ok =>
      match s.pc with
      | .job t .requeuePush => some (.requeued t.job.jobId)
      | _ => none
  | .beat .ok =>
      match s.pc with
      | .job t .beat => if t.pc = .finished .returned then some (.finished t.job.jobId) else none
      | _ => none
  | .fail .ok =>
      match s.pc with
      | .job t (.failSet _ _) => some (.finished t.job.jobId)
      | _ => none
  | _ => none

def History.note (s : State) (a : Act) (h : History) : History where
  log := h.log ++ (observe s a).toList
  expired := match a with | .expire j => j :: h.expired | _ => h.expired

/-- The queue with its one worker, and what has happened. -/
def recorded : System (State × History) Act := system.ghost ⟨[], []⟩ History.note

/-- A step of a run without crashes, Redis errors and outside writers: each id is enqueued
once, no command raises, and a signal comes when its handler is installed.  A task may be
cancelled while Redis executes its command. -/
def Graceful (x : State × History) : Act → Prop
  | .enqueue j _ _ => j ∉ Event.arrivals x.2.log
  | .sigterm => x.1.pc ≠ .startBeat ∧ x.1.pc ≠ .warmUp
  | .crash | .sweepGet _ | .sweepSet _ _ _ => False
  | .beat r | .pop r | .fetch r | .fail r | .requeue r => r = .ok
  | .popTimeout applied => applied = false
  | .task e | .stray _ e => e.calm = true
  | .expire _ | .start | .warm | .wake | .closed => True

instance (x : State × History) (a : Act) : Decidable (Graceful x a) := by
  unfold Graceful
  split <;> infer_instance

/-! ## The line -/

/-- The handler task has taken its first step, and was not cancelled since. -/
def Task.begun (t : Task) : Bool :=
  match t.pc with
  | .dispatch | .finished .cancelled => false
  | _ => true

/-- Whether the job in hand counts as started; one that was cancelled may or may not. -/
def Busy (s : State) (b : Bool) : Prop :=
  match s.pc with
  | .job t _ => (t.pc = .dispatch → b = false) ∧ (t.begun = true → b = true)
  | _ => b = false

theorem Busy.of_idle (h : Busy s b) (hs : ∀ t p, s.pc ≠ .job t p) : b = false := by
  unfold Busy at h
  split at h
  · next hpc => exact absurd hpc (hs _ _)
  · exact h

theorem busy_of_job {p : JobPc} (hpc : s.pc = .job t p) :
    Busy s b ↔ (t.pc = .dispatch → b = false) ∧ (t.begun = true → b = true) := by
  simp [Busy, hpc]

theorem busy_false (hs : ∀ t p, s.pc ≠ .job t p) : Busy s false := by
  unfold Busy
  split
  · next hpc => exact absurd hpc (hs _ _)
  · rfl

/-- The line of a state, with whether its first job is started, after the events `log`. -/
def InLine (s : State) (log : List (Event JobId)) : Prop :=
  ∃ b, Delivery s.held b log ∧ Busy s b

namespace InLine

variable {log : List (Event JobId)}

/-- A step that nothing is noted of. -/
theorem same (h : InLine s log) (hh : s'.held = s.held) (hb : ∀ b, Busy s b → Busy s' b) :
    InLine s' log := by
  obtain ⟨b, hd, hbusy⟩ := h
  exact ⟨b, hh ▸ hd, hb b hbusy⟩

/-- The worker handles no job, before and after. -/
theorem idle (h : InLine s log) (hh : s'.held = s.held) (hs : ∀ t p, s.pc ≠ .job t p)
    (hs' : ∀ t p, s'.pc ≠ .job t p) : InLine s' log := by
  apply h.same hh
  intro b hb
  rw [hb.of_idle hs]
  exact busy_false hs'

/-- The worker handles the same job, whose task is where it was. -/
theorem job {t' : Task} {p p' : JobPc} (h : InLine s log) (hpc : s.pc = .job t p)
    (hpc' : s'.pc = .job t' p') (hj : t'.job = t.job) (ht : t'.pc = t.pc)
    (hq : s'.redis.queue = s.redis.queue) : InLine s' log := by
  apply h.same (by simp [State.held, hpc, hpc', Pc.hand, hj, hq])
  intro b hb
  rw [busy_of_job hpc] at hb
  rw [busy_of_job hpc']
  simpa [Task.begun, ht] using hb

/-- The worker is done with the job in hand, whose task was started. -/
theorem finish {p : JobPc} (h : InLine s log) (hpc : s.pc = .job t p) (ht : t.begun = true)
    (hs' : ∀ t p, s'.pc ≠ .job t p) (hh : s'.pc.hand = none)
    (hq : s'.redis.queue = s.redis.queue) : InLine s' (log ++ [.finished t.job.jobId]) := by
  obtain ⟨b, hd, hb⟩ := h
  have hheld : s.held = t.job.jobId :: s'.held := by
    rw [State.held, State.held, hpc, hh, hq]
    rfl
  rw [hheld, ((busy_of_job hpc).mp hb).2 ht] at hd
  exact ⟨false, .finish hd, busy_false hs'⟩

/-- An event of the task in flight. -/
theorem task {p : JobPc} {e : TaskEv} {r : Redis} {pc : TaskPc} (h : InLine s log)
    (hpc : s.pc = .job t p) (hc : TaskCalm s.redis t e r pc) :
    InLine { s with redis := r, pc := .job { t with pc := pc } p }
      (log ++ (observe s (.task e)).toList) := by
  obtain ⟨b, hd, hb⟩ := h
  have hheld : s.held = t.job.jobId :: s.redis.queue := by simp [State.held, hpc, Pc.hand]
  have hheld' : State.held { s with redis := r, pc := .job { t with pc := pc } p } =
      t.job.jobId :: s.redis.queue := by simp [State.held, Pc.hand, hc.queue_eq]
  obtain ⟨hdis, hbeg⟩ := (busy_of_job hpc).mp hb
  rw [hheld] at hd
  rw [InLine, hheld']
  cases hc with
  | start h₁ | unhandled h₁ =>
      rw [hdis h₁] at hd
      simp only [observe, hpc, Option.toList_some]
      exact ⟨true, .start hd, by rintro ⟨⟩, fun _ ↦ rfl⟩
  | cancel =>
      refine ⟨b, by simpa [observe] using hd, by rintro ⟨⟩, by rintro ⟨⟩⟩
  | doneSet h₁ hpc' =>
      have hb : b = true := hbeg (by simp [Task.begun, h₁])
      refine ⟨b, by simpa [observe] using hd, ?_, fun _ ↦ hb⟩
      rcases hpc' with rfl | rfl <;> rintro ⟨⟩
  | runGet h₁ | runSet h₁ | noTarget h₁ | doneGet h₁ | bodyReturn h₁ | bodyRaise h₁
  | afterReturn h₁ =>
      have hb : b = true := hbeg (by simp [Task.begun, h₁])
      exact ⟨b, by simpa [observe] using hd, by rintro ⟨⟩, fun _ ↦ hb⟩

theorem calm {x : List JobId} (h : InLine s log) (hs : Named s) (hi : InStep s)
    (hf : ∀ j, s.pc = .fetching j → s.redis.get j ≠ none) (hg : Graceful (s, ⟨log, x⟩) a)
    (hc : Calm s a s') : InLine s' (log ++ (observe s a).toList) := by
  have hnone : observe s a = none → InLine s' log → InLine s' (log ++ (observe s a).toList) := by
    intro ho hl
    rw [ho]
    simpa using hl
  have htop : s.pc.hand = none → s.loopTop.held = s.held := fun hh ↦ by
    rw [State.held, State.held, loopTop_hand, hh, loopTop_redis]
  cases hc with
  | enqueue j k p =>
      obtain ⟨b, hd, hb⟩ := h
      refine ⟨b, ?_, hb⟩
      simpa [State.held, Redis.enqueue, observe] using hd.enqueue hg
  | expire => exact hnone rfl (h.same rfl fun _ hb ↦ hb)
  | sweepGet | sweepSet => exact hg.elim
  | start hpc | warm hpc =>
      exact hnone rfl (h.idle (by simp [State.held, hpc, Pc.hand]) (by simp [hpc]) (by simp))
  | startBeat hpc | loopBeat hpc =>
      exact hnone (by simp [observe, hpc])
        (h.idle (by simp [State.held, hpc, Pc.hand]) (by simp [hpc]) (by simp))
  | pop hpc hq =>
      exact hnone rfl
        (h.idle (by simp [State.held, hpc, hq, Pc.hand, Redis.pop]) (by simp [hpc]) (by simp))
  | readyBeat hpc =>
      exact hnone (by simp [observe, hpc])
        (h.idle (htop (by rw [hpc]; rfl)) (by simp [hpc]) (loopTop_ne_job s))
  | popEmpty hpc ha =>
      exact hnone (by rcases ha with rfl | rfl <;> rfl)
        (h.idle (htop (by rw [hpc]; rfl)) (by simp [hpc]) (loopTop_ne_job s))
  | wakeUp hpc =>
      exact hnone rfl (h.idle (htop (by rw [hpc]; rfl)) (by simp [hpc]) (loopTop_ne_job s))
  | @jobBeat t hpc =>
      by_cases ht : t.pc = .finished .returned
      · have ho : observe s (.beat .ok) = some (.finished t.job.jobId) := by
          simp [observe, hpc, ht]
        have hafter : s.afterBeat t = s.loopTop := by simp [State.afterBeat, ht]
        rw [ho, hafter]
        exact h.finish hpc (by simp [Task.begun, ht]) (loopTop_ne_job s) (loopTop_hand s) rfl
      · apply hnone (by simp [observe, hpc, ht])
        unfold State.afterBeat
        split
        · contradiction
        all_goals exact h.job hpc rfl rfl rfl rfl
  | fetchNone hpc hm => exact absurd hm (hf _ hpc)
  | @fetch j m hpc hm =>
      refine hnone rfl (h.same ?_ ?_)
      · simp [State.held, hpc, Pc.hand, hs.jobs j m hm]
      · intro b hb
        exact ⟨fun _ ↦ hb.of_idle (by simp [hpc]), by rintro ⟨⟩⟩
  | wake hpc => exact hnone rfl (h.job hpc rfl rfl rfl rfl)
  | failGet hpc | requeueGet hpc | requeueSet hpc =>
      exact hnone (by simp [observe, hpc]) (h.job hpc rfl rfl rfl rfl)
  | @failSet t error raw hpc =>
      have hraised : t.raised = true := hi.fits _ _ hpc
      have ho : observe s (.fail .ok) = some (.finished t.job.jobId) := by simp [observe, hpc]
      rw [ho]
      refine h.finish hpc ?_ (loopTop_ne_job _) (loopTop_hand _) rfl
      unfold Task.raised at hraised
      split at hraised
      · next ht => simp [Task.begun, ht]
      · cases hraised
  | @requeuePush t hpc =>
      obtain ⟨b, hd, hb⟩ := h
      have hheld : s.held = t.job.jobId :: s.redis.queue := by simp [State.held, hpc, Pc.hand]
      rw [hheld] at hd
      refine ⟨false, ?_, rfl⟩
      simpa [State.held, Pc.hand, Redis.lpush, observe, hpc] using hd.requeue
  | die hd =>
      rcases hd with rfl | ⟨hh, ha⟩
      · exact hg.elim
      refine hnone (by rcases ha with rfl | rfl <;> rfl) (h.idle ?_ ?_ (by simp [State.die]))
      · rw [State.held, State.held, hh]
        rfl
      · intro t p hpc
        rw [hpc] at hh
        cases hh
  | sigterm =>
      apply hnone rfl
      unfold State.requestShutdown
      split
      · next t p hpc => exact h.job hpc rfl rfl rfl rfl
      · exact h.same rfl fun _ hb ↦ hb
  | task hpc hc => exact h.task hpc hc

end InLine

/-! ## The metadata -/

/-- The id of a job the worker has popped and not looked at, or is about to push. -/
def Pc.queuedIds : Pc → List JobId
  | .fetching j => [j]
  | .job t .requeuePush => [t.job.jobId]
  | _ => []

/-- The id of a job whose handler has recorded its success. -/
def Pc.closedIds : Pc → List JobId
  | .job t .wait | .job t .beat =>
      if t.pc = .after ∨ t.pc = .finished .returned then [t.job.jobId] else []
  | _ => []

/-- The recorded status of `j` is terminal, unless its key has expired. -/
def Closed (r : Redis) (expired : List JobId) (j : JobId) : Prop :=
  (∃ st, r.status j = some st ∧ st.terminal = true) ∨ (r.status j = none ∧ j ∈ expired)

/-- The metadata says where a job is. -/
structure Filed (s : State) (h : History) : Prop where
  queued : ∀ j ∈ s.redis.queue ++ s.pc.queuedIds, s.redis.status j = some .queued
  closed : ∀ j ∈ Event.done h.log ++ s.pc.closedIds, Closed s.redis h.expired j

namespace Filed

variable {h h' : History}

/-- No metadata is written. -/
theorem same (hf : Filed s h) (hj : s'.redis.jobs = s.redis.jobs) (hx : h'.expired = h.expired)
    (hq : ∀ j ∈ s'.redis.queue ++ s'.pc.queuedIds, j ∈ s.redis.queue ++ s.pc.queuedIds)
    (hc : ∀ j ∈ Event.done h'.log ++ s'.pc.closedIds, j ∈ Event.done h.log ++ s.pc.closedIds) :
    Filed s' h' := by
  have hst : ∀ j, s'.redis.status j = s.redis.status j := fun j ↦ by
    rw [Redis.status, Redis.status, Redis.get, Redis.get, hj]
  refine ⟨fun j hm ↦ (hst j).trans (hf.queued j (hq j hm)), ?_⟩
  intro j hm
  rw [Closed, hst, hx]
  exact hf.closed j (hc j hm)

/-- The metadata of `i` is written, or expires. -/
theorem write (hf : Filed s h) (hj : ∀ j, j ≠ i → s'.redis.jobs j = s.redis.jobs j)
    (hx : h.expired ⊆ h'.expired)
    (hq : ∀ j ∈ s'.redis.queue ++ s'.pc.queuedIds, j ≠ i → j ∈ s.redis.queue ++ s.pc.queuedIds)
    (hqi : i ∈ s'.redis.queue ++ s'.pc.queuedIds → s'.redis.status i = some .queued)
    (hc : ∀ j ∈ Event.done h'.log ++ s'.pc.closedIds, j ≠ i →
      j ∈ Event.done h.log ++ s.pc.closedIds)
    (hci : i ∈ Event.done h'.log ++ s'.pc.closedIds → Closed s'.redis h'.expired i) :
    Filed s' h' := by
  have hst : ∀ j, j ≠ i → s'.redis.status j = s.redis.status j := fun j hne ↦ by
    rw [Redis.status, Redis.status, Redis.get, Redis.get, hj j hne]
  constructor
  · intro j hm
    by_cases hji : j = i
    · subst hji
      exact hqi hm
    · exact (hst j hji).trans (hf.queued j (hq j hm hji))
  · intro j hm
    by_cases hji : j = i
    · subst hji
      exact hci hm
    · rw [Closed, hst j hji]
      exact (hf.closed j (hc j hm hji)).imp_right fun hn ↦ ⟨hn.1, hx hn.2⟩

end Filed

/-- The job in hand is neither in the list nor finished. -/
theorem InLine.not_elsewhere {log : List (Event JobId)} {p : JobPc} (h : InLine s log)
    (hpc : s.pc = .job t p) : t.job.jobId ∉ s.redis.queue ∧ t.job.jobId ∉ Event.done log := by
  obtain ⟨b, hd, -⟩ := h
  have hheld : s.held = t.job.jobId :: s.redis.queue := by simp [State.held, hpc, Pc.hand]
  have hnd := hd.nodup_places
  rw [hheld, List.cons_append, List.nodup_cons, List.mem_append, not_or] at hnd
  exact hnd.1

theorem done_note_of_task (h : History) (s : State) (e : TaskEv) :
    Event.done (h.note s (.task e)).log = Event.done h.log := by
  cases e with
  | start =>
      simp only [History.note, Event.done_append, observe]
      split <;> simp [Event.done]
  | _ => simp [History.note, observe]

/-- An event of the task in flight writes its metadata. -/
theorem Filed.task {h : History} {p : JobPc} {e : TaskEv} {r : Redis} {pc : TaskPc}
    (hf : Filed s h) (hl : InLine s h.log) (hi : InStep s) (hpc : s.pc = .job t p)
    (hc : TaskCalm s.redis t e r pc) :
    Filed { s with redis := r, pc := .job { t with pc := pc } p } (h.note s (.task e)) := by
  obtain ⟨hnq, hnd⟩ := hl.not_elsewhere hpc
  have hdone : t.done = false := (TaskMove.calm hc).not_done
  have hp : p = .wait ∨ p = .beat := by
    have hfit := hi.fits _ _ hpc
    cases p with
    | wait => exact .inl rfl
    | beat => exact .inr rfl
    | failGet | failSet => cases (Task.done_of_raised hfit).symm.trans hdone
    | requeueGet | requeueSet | requeuePush => cases hfit.symm.trans hdone
  have hqids : ∀ u : Task, (Pc.job u p).queuedIds = [] := fun u ↦ by
    rcases hp with rfl | rfl <;> rfl
  have hcids : ∀ u : Task, ∀ j ∈ (Pc.job u p).closedIds,
      j = u.job.jobId ∧ (u.pc = .after ∨ u.pc = .finished .returned) := fun u j hj ↦ by
    rcases hp with rfl | rfl <;> simpa [Pc.closedIds, and_comm] using hj
  have hsucc : ∀ {raw : Option JobMeta}, Closed (s.redis.set t.job.jobId (updateMeta raw
      t.job.jobId { status := .succeeded, progress := some 1 })) h.expired t.job.jobId :=
    .inl ⟨.succeeded, by simp [Redis.status, Redis.get, Redis.set], rfl⟩
  refine hf.write (i := t.job.jobId) ?_ (fun _ hx ↦ hx) ?_ ?_ ?_ ?_
  · intro j hj
    obtain ⟨b, hb⟩ := (TaskMove.calm hc).redis_eq
    simp only [hb, Task.write]
    split
    · simp [Redis.set, hj]
    · simp [Redis.set, hj]
    · rfl
  · intro j hm _
    simpa [hc.queue_eq, hqids, hpc] using hm
  · intro hm
    exact absurd (by simpa [hc.queue_eq, hqids] using hm) hnq
  · intro j hm hj
    rw [done_note_of_task, List.mem_append] at hm
    exact List.mem_append_left _ (hm.resolve_right fun hm ↦ hj (hcids _ j hm).1)
  · intro hm
    rw [done_note_of_task, List.mem_append] at hm
    obtain ⟨-, hover⟩ := hcids _ _ (hm.resolve_left hnd)
    cases hc with
    | doneSet => exact hsucc
    | afterReturn h₁ =>
        refine hf.closed _ (List.mem_append_right _ ?_)
        rcases hp with rfl | rfl <;> simp [hpc, Pc.closedIds, h₁]
    | start | unhandled | runGet | runSet | noTarget | doneGet | bodyReturn | bodyRaise | cancel =>
        rcases hover with hover | hover <;> cases hover

/-- A step that nothing is noted of, and that writes no metadata. -/
theorem Filed.quiet {h : History} (hf : Filed s h) (ho : observe s a = none)
    (hx : ∀ j, a ≠ .expire j) (hj : s'.redis.jobs = s.redis.jobs)
    (hq : ∀ j ∈ s'.redis.queue ++ s'.pc.queuedIds, j ∈ s.redis.queue ++ s.pc.queuedIds)
    (hc : ∀ j ∈ s'.pc.closedIds, j ∈ s.pc.closedIds) : Filed s' (h.note s a) := by
  have hex : (h.note s a).expired = h.expired := by
    cases a with
    | expire j => exact absurd rfl (hx j)
    | _ => rfl
  apply hf.same hj hex hq
  intro j hm
  simp only [History.note, ho, Option.toList_none, List.append_nil, List.mem_append] at hm ⊢
  exact hm.imp_right (hc j)

/-- The worker is at the top of its loop, or gone. -/
theorem Filed.clear {h : History} (hf : Filed s h) (ho : observe s a = none)
    (hx : ∀ j, a ≠ .expire j) (hr : s'.redis = s.redis) (hq : s'.pc.queuedIds = [])
    (hc : s'.pc.closedIds = []) : Filed s' (h.note s a) := by
  refine hf.quiet ho hx (by rw [hr]) ?_ (by simp [hc])
  intro j hm
  rw [hr, hq, List.append_nil] at hm
  exact List.mem_append_left _ hm

theorem loopTop_ids (s : State) : s.loopTop.pc.queuedIds = [] ∧ s.loopTop.pc.closedIds = [] := by
  simp only [State.loopTop]
  split <;> exact ⟨rfl, rfl⟩

theorem requestShutdown_ids (s : State) :
    s.requestShutdown.pc.queuedIds = s.pc.queuedIds ∧
      s.requestShutdown.pc.closedIds = s.pc.closedIds := by
  unfold State.requestShutdown
  split
  · next t p hpc =>
      rw [hpc]
      cases p <;> exact ⟨rfl, rfl⟩
  · exact ⟨rfl, rfl⟩

theorem hand_of_closedIds {pc : Pc} (h : j ∈ pc.closedIds) : pc.hand = some j := by
  unfold Pc.closedIds at h
  split at h
  · split at h
    · rw [List.mem_singleton.mp h]
      rfl
    · cases h
  · split at h
    · rw [List.mem_singleton.mp h]
      rfl
    · cases h
  · cases h

/-- A job is enqueued under an id that is new. -/
theorem Filed.enqueue {h : History} {k : Kind} {p : Payload} (hf : Filed s h)
    (hl : InLine s h.log) (hg : Graceful (s, h) (.enqueue j k p)) :
    Filed { s with redis := s.redis.enqueue j k p } (h.note s (.enqueue j k p)) := by
  obtain ⟨b, hd, -⟩ := hl
  have hnew : j ∉ s.held ++ Event.done h.log := fun hm ↦ hg (hd.perm.subset hm)
  rw [State.held, List.mem_append, List.mem_append, not_or, not_or] at hnew
  refine hf.write (i := j) (fun i hi ↦ by simp [Redis.enqueue, hi]) (fun _ hx ↦ hx)
    ?_ (fun _ ↦ by simp [Redis.status, Redis.get, Redis.enqueue])
    ?_ ?_
  · intro i hm hi
    simpa [Redis.enqueue, hi] using hm
  · intro i hm _
    simpa [History.note, observe] using hm
  · intro hm
    simp only [History.note, observe, Option.toList_some, Event.done_append,
      Event.done_enqueued, List.append_nil, List.mem_append] at hm
    have hpc := hm.resolve_left hnew.2
    exact absurd (Option.mem_toList.mpr (hand_of_closedIds hpc)) hnew.1.1

/-- Metadata expires, of a job that is done. -/
theorem Filed.expire {h : History} (hf : Filed s h) (ht : Timed s)
    (hx : (s.redis.jobs j).any Entry.ttl = true) :
    Filed { s with redis := s.redis.expire j } (h.note s (.expire j)) := by
  obtain ⟨e, he, httl⟩ := (Option.any_eq_true _ _).mp hx
  have hst : s.redis.status j = some e.job.status := by simp [Redis.status, Redis.get, he]
  refine hf.write (i := j) (fun i hi ↦ by simp [Redis.expire, hi])
    (fun _ hm ↦ List.mem_cons_of_mem _ hm) (fun i hm _ ↦ hm) ?_ ?_
    fun _ ↦ .inr ⟨by simp [Redis.status, Redis.get, Redis.expire], List.mem_cons_self⟩
  · intro hm
    have hq : e.job.status = .queued :=
      Option.some.inj (hst.symm.trans (hf.queued j hm))
    rw [ht j e he, hq] at httl
    cases httl
  · intro i hm _
    simpa [History.note, observe] using hm

/-- The loop records the job in hand as `queued` again. -/
theorem Filed.requeueSet {h : History} {raw : Option JobMeta} (hf : Filed s h)
    (hl : InLine s h.log) (hpc : s.pc = .job t (.requeueSet raw)) :
    Filed { s with
      redis := s.redis.set t.job.jobId
        (updateMeta raw t.job.jobId { status := .queued, progress := some 0 })
      pc := .job t .requeuePush } (h.note s (.requeue .ok)) := by
  have ho : observe s (.requeue .ok) = none := by simp [observe, hpc]
  obtain ⟨-, hnd⟩ := hl.not_elsewhere hpc
  refine hf.write (i := t.job.jobId) (fun j hj ↦ by simp [Redis.set, hj]) (fun _ hx ↦ hx)
    ?_ (fun _ ↦ by simp [Redis.status, Redis.get, Redis.set])
    ?_ ?_
  · intro j hm hj
    simp only [Pc.queuedIds, List.mem_append, List.mem_singleton] at hm
    exact List.mem_append_left _ (hm.resolve_right hj)
  · intro j hm _
    simpa [History.note, ho, Pc.closedIds, hpc] using hm
  · intro hm
    exact absurd (by simpa [History.note, ho, Pc.closedIds] using hm) hnd

/-- The loop records the failure of the job in hand. -/
theorem Filed.failSet {h : History} {error : String} {raw : Option JobMeta} (hf : Filed s h)
    (hl : InLine s h.log) (hpc : s.pc = .job t (.failSet error raw)) :
    Filed ({ s with
      redis := s.redis.set t.job.jobId
        (updateMeta raw t.job.jobId { status := .failed, error := some error }) }.leave t)
      (h.note s (.fail .ok)) := by
  have ho : observe s (.fail .ok) = some (.finished t.job.jobId) := by simp [observe, hpc]
  obtain ⟨hnq, -⟩ := hl.not_elsewhere hpc
  have hids := loopTop_ids { s with
    redis := s.redis.set t.job.jobId
      (updateMeta raw t.job.jobId { status := .failed, error := some error })
    strays := if t.done then s.strays else t :: s.strays }
  refine hf.write (i := t.job.jobId) ?_ (fun _ hx ↦ hx) ?_ ?_ ?_ fun _ ↦ .inl ⟨.failed, ?_, rfl⟩
  · intro j hj
    simp [State.leave, State.loopTop, Redis.set, hj]
  · intro j hm _
    simp only [State.leave, hids.1, List.append_nil] at hm
    exact List.mem_append_left _ hm
  · intro hm
    simp only [State.leave, hids.1, List.append_nil] at hm
    exact absurd hm hnq
  · intro j hm hj
    simp only [State.leave, hids.2, List.append_nil, History.note, ho, Event.done_append,
      Option.toList_some, Event.done_finished, List.mem_append, List.mem_singleton] at hm
    exact List.mem_append_left _ (hm.resolve_right hj)
  · simp [State.leave, State.loopTop, Redis.status, Redis.get, Redis.set]

theorem Filed.calm {h : History} (hf : Filed s h) (hl : InLine s h.log) (ht : Timed s)
    (hi : InStep s) (hg : Graceful (s, h) a) (hc : Calm s a s') : Filed s' (h.note s a) := by
  obtain ⟨htq, htc⟩ := loopTop_ids s
  cases hc with
  | enqueue j k p => exact hf.enqueue hl hg
  | expire j hx => exact hf.expire ht hx
  | sweepGet | sweepSet => exact hg.elim
  | start | warm => exact hf.clear rfl (by simp) rfl rfl rfl
  | startBeat hpc | loopBeat hpc => exact hf.clear (by simp [observe, hpc]) (by simp) rfl rfl rfl
  | pop hpc hq =>
      refine hf.quiet rfl (by simp) rfl ?_ (by simp [Pc.closedIds])
      intro j hm
      simpa [Redis.pop, hq, Pc.queuedIds, or_comm, hpc] using hm
  | readyBeat hpc => exact hf.clear (by simp [observe, hpc]) (by simp) rfl htq htc
  | popEmpty hpc ha =>
      exact hf.clear (by rcases ha with rfl | rfl <;> rfl) (by rcases ha with rfl | rfl <;> simp)
        rfl htq htc
  | wakeUp | fetchNone => exact hf.clear rfl (by simp) rfl htq htc
  | fetch => exact hf.clear rfl (by simp) rfl rfl rfl
  | @jobBeat t hpc =>
      by_cases hret : t.pc = .finished .returned
      · have hafter : s.afterBeat t = s.loopTop := by simp [State.afterBeat, hret]
        rw [hafter]
        refine hf.same rfl rfl ?_ ?_
        · intro j hm
          rw [htq, List.append_nil] at hm
          exact List.mem_append_left _ hm
        · intro j hm
          rw [htc] at hm
          simpa [History.note, observe, hpc, hret, Pc.closedIds] using hm
      · have ho : observe s (.beat .ok) = none := by simp [observe, hpc, hret]
        unfold State.afterBeat
        split
        · contradiction
        · exact hf.clear ho (by simp) rfl rfl rfl
        · exact hf.clear ho (by simp) rfl rfl rfl
        · refine hf.quiet ho (by simp) rfl ?_ ?_
          · intro j hm
            simpa [hpc, Pc.queuedIds] using hm
          · intro j hm
            simpa [hpc, Pc.closedIds] using hm
  | wake hpc =>
      refine hf.quiet rfl (by simp) rfl ?_ ?_
      · intro j hm
        simpa [hpc, Pc.queuedIds] using hm
      · intro j hm
        simpa [hpc, Pc.closedIds] using hm
  | failGet hpc | requeueGet hpc => exact hf.clear (by simp [observe, hpc]) (by simp) rfl rfl rfl
  | requeueSet hpc => exact hf.requeueSet hl hpc
  | failSet hpc => exact hf.failSet hl hpc
  | @requeuePush t hpc =>
      refine hf.same rfl rfl ?_ ?_
      · intro j hm
        simpa [Redis.lpush, Pc.queuedIds, hpc, or_comm] using hm
      · intro j hm
        simpa [History.note, observe, hpc, Pc.closedIds] using hm
  | die hd =>
      rcases hd with rfl | ⟨-, ha⟩
      · exact hg.elim
      · exact hf.clear (by rcases ha with rfl | rfl <;> rfl) (by rcases ha with rfl | rfl <;> simp)
          rfl rfl rfl
  | sigterm =>
      obtain ⟨hsq, hsc⟩ := requestShutdown_ids s
      refine hf.quiet rfl (by simp) (by rw [requestShutdown_redis]) ?_ ?_
      · intro j hm
        rwa [requestShutdown_redis, hsq] at hm
      · intro j hm
        rwa [hsc] at hm
  | task hpc hc => exact hf.task hl hi hpc hc

/-! ## The whole run -/

structure ShutdownInv (x : State × History) : Prop where
  named : Named x.1
  timed : Timed x.1
  inStep : InStep x.1
  line : InLine x.1 x.2.log
  filed : Filed x.1 x.2

namespace ShutdownInv

protected theorem init : ShutdownInv recorded.init where
  named := .init
  timed := .init
  inStep := .of_idle rfl (by simp [recorded, System.ghost, system, State.init])
  line := ⟨false, .init, rfl⟩
  filed := ⟨by rintro j ⟨⟩, by rintro j ⟨⟩⟩

/-- A graceful step meets no error, and no task has been left for it to be an event of. -/
theorem calm {x : State × History} (h : ShutdownInv x) (hg : Graceful x a)
    (hn : Jobs.step x.1 a = some s') : Calm x.1 a s' := by
  cases a with
  | stray n e => simp [Jobs.step, h.inStep.strays] at hn
  | crash | sweepGet | sweepSet => exact hg.elim
  | beat | pop | fetch | fail | requeue =>
      cases hg
      exact .of_step rfl hn
  | popTimeout =>
      cases hg
      exact .of_step rfl hn
  | task e => exact .of_step hg hn
  | enqueue | sigterm | expire | start | warm | wake | closed => exact .of_step rfl hn

theorem step {x x' : State × History} (h : ShutdownInv x) (hg : Graceful x a)
    (hn : recorded.next x a = some x') : ShutdownInv x' := by
  obtain ⟨s', hs', rfl⟩ := Option.map_eq_some_iff.mp hn
  have hc := h.calm hg hs'
  have hpresent : ∀ j, x.1.pc = .fetching j → x.1.redis.get j ≠ none := by
    intro j hpc hm
    have hq := h.filed.queued j (by simp [hpc, Pc.queuedIds])
    rw [Redis.status, hm] at hq
    cases hq
  exact
    { named := h.named.step hs'
      timed := h.timed.step hs'
      inStep := h.inStep.calm hc
      line := h.line.calm h.named h.inStep hpresent hg hc
      filed := h.filed.calm h.line h.timed h.inStep hg hc }

end ShutdownInv

/-- What a graceful run keeps of the jobs, with `h` for what has happened in it. -/
structure Conserved (s : State) (h : History) : Prop where
  /-- Every job that was enqueued is at exactly one place: in the list, in the worker's
  hands, or finished. -/
  place : ∀ j ∈ Event.arrivals h.log,
    (j ∈ s.redis.queue ∧ s.pc.hand ≠ some j ∧ j ∉ Event.done h.log) ∨
    (j ∉ s.redis.queue ∧ s.pc.hand = some j ∧ j ∉ Event.done h.log) ∨
    (j ∉ s.redis.queue ∧ s.pc.hand ≠ some j ∧ j ∈ Event.done h.log)
  /-- A finished job has a terminal status, until its key expires. -/
  terminal : ∀ j ∈ Event.done h.log, Closed s.redis h.expired j
  nodup : s.redis.queue.Nodup
  /-- When a job is started for the first time, those enqueued before it have been. -/
  order : ∀ l j, l ++ [.started j] <+: h.log → .started j ∉ l →
    ∀ i, [i, j].Sublist (Event.arrivals l) → .started i ∈ l
  /-- An interrupted job is the next one started. -/
  next : ∀ l i, l ++ [.started i] <+: h.log → ∀ j, Event.awaiting l = some j → i = j
  /-- A key has an expiry exactly when its status is terminal. -/
  ttl : ∀ j e, s.redis.jobs j = some e → (e.ttl = true ↔ e.job.status.terminal = true)

/-- **Graceful shutdown loses and reorders nothing**, along every run in which the worker is
stopped by signals only, at whatever await, and started again. -/
theorem graceful_conserves (x : State × History) (h : recorded.Reach Graceful x) :
    Conserved x.1 x.2 := by
  have hinv : ShutdownInv x := h.invariant .init fun _ _ _ hx hg hn ↦ hx.step hg hn
  obtain ⟨b, hd, -⟩ := hinv.line
  have hnd := hd.nodup_places
  have hmem : ∀ j, j ∈ x.1.held ↔ x.1.pc.hand = some j ∨ j ∈ x.1.redis.queue := fun j ↦ by
    rw [State.held, List.mem_append, Option.mem_toList]
  refine
    { place := fun j hj ↦ ?_
      terminal := fun j hj ↦ hinv.filed.closed j (List.mem_append_left _ hj)
      nodup := hnd.of_append_left.of_append_right
      order := fun l j hl hj i hij ↦ hd.fifo hl hj hij
      next := fun l i hl j hj ↦ hd.next hl hj
      ttl := fun j e he ↦ by rw [hinv.timed j e he] }
  have hheld : j ∈ x.1.held → j ∉ Event.done x.2.log := fun hm hf ↦
    (List.disjoint_of_nodup_append hnd) hm hf
  have hhand : x.1.pc.hand = some j → j ∉ x.1.redis.queue := fun hh hq ↦
    (List.disjoint_of_nodup_append hnd.of_append_left) (Option.mem_toList.mpr hh) hq
  rcases List.mem_append.mp (hd.perm.symm.subset hj) with hm | hf
  · rcases (hmem j).mp hm with hh | hq
    · exact .inr (.inl ⟨hhand hh, hh, hheld hm⟩)
    · exact .inl ⟨hq, fun hh ↦ hhand hh hq, hheld hm⟩
  · exact .inr (.inr ⟨fun hq ↦ hheld ((hmem j).mpr (.inr hq)) hf,
      fun hh ↦ hheld ((hmem j).mpr (.inl hh)) hf, hf⟩)

/-- Three jobs; the first is interrupted after its success was recorded, the worker is
started again, and finishes it and then the second. -/
def interruptedRun : List Act :=
  ([.enqueue 0 .index ⟨some 0, false⟩, .enqueue 1 .adapter ⟨some 1, false⟩,
    .start, .beat .ok, .warm, .beat .ok] : List Act) ++ takeJob ++
  ([.task .start, .task (.reply .ok), .task (.reply .ok), .task .bodyReturn, .task (.reply .ok),
    .task (.reply .ok), .sigterm, .task (.cancel false), .wake, .beat .ok,
    .enqueue 2 .ragEval ⟨some 2, false⟩, .requeue .ok, .requeue .ok, .requeue .ok, .closed,
    .start, .beat .ok, .warm, .beat .ok] : List Act) ++ takeJob ++
  ([.task .start, .task (.reply .ok), .task (.reply .ok), .task .bodyReturn, .task (.reply .ok),
    .task (.reply .ok), .task .afterReturn, .wake, .beat .ok] : List Act) ++ takeJob ++
  ([.task .start, .task (.reply .ok), .task (.reply .ok), .task (.bodyRaise none), .wake, .beat .ok,
    .fail .ok, .fail .ok] : List Act)

/-- The hypothesis of `graceful_conserves` is met by a run with an interruption and a
restart. -/
theorem conserved_interruptedRun : ∃ x, recorded.Reach Graceful x ∧
    x.2.log = [.enqueued 0, .enqueued 1, .started 0, .enqueued 2, .requeued 0, .started 0,
      .finished 0, .started 1, .finished 1] ∧ x.1.redis.queue = [2] ∧ Conserved x.1 x.2 := by
  obtain ⟨x, hx, hr⟩ := System.Reach.of_exec (S := recorded) (g := Graceful)
    (l := interruptedRun) (f := fun x ↦ (x.2.log, x.1.redis.queue))
    (b := ([.enqueued 0, .enqueued 1, .started 0, .enqueued 2, .requeued 0, .started 0,
      .finished 0, .started 1, .finished 1], [2])) (by decide)
  obtain ⟨hlog, hq⟩ := Prod.mk.inj hr
  exact ⟨x, hx, hlog, hq, graceful_conserves x hx⟩

end Adapta.Jobs
