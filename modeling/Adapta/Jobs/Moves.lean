import Adapta.Jobs.Worker

/-!
# What a step does

`step` taken apart, once: `Calm` has one constructor for each thing a step can do when no
Redis command of the worker raises and no task has been left, and `Move` adds what a step
does when one raises, or when a task that was left goes on.  `TaskCalm` and `TaskMove` do
the same for a handler task.  Every invariant of the queue is derived from these.
-/

namespace Adapta.Jobs

open Lib

variable {s s' : State} {a : Act} {j : JobId} {t : Task}

/-! ## When Redis answers -/

/-- The end of a task's await when Redis answers. -/
inductive TaskCalm (r : Redis) (t : Task) : TaskEv → Redis → TaskPc → Prop
  | start (h : t.pc = .dispatch) (hh : t.job.handled = true) : TaskCalm r t .start r .runGet
  | unhandled (h : t.pc = .dispatch) :
      TaskCalm r t .start r (.finished (.raised unknownJobKind))
  | runGet (h : t.pc = .runGet) :
      TaskCalm r t (.reply .ok) r (.runSet (r.get t.job.jobId))
  | runSet {raw : Option JobMeta} (h : t.pc = .runSet raw) (ht : t.job.target.isSome) :
      TaskCalm r t (.reply .ok)
        (r.set t.job.jobId (updateMeta raw t.job.jobId { status := .running })) .body
  | noTarget {raw : Option JobMeta} (h : t.pc = .runSet raw) :
      TaskCalm r t (.reply .ok)
        (r.set t.job.jobId (updateMeta raw t.job.jobId { status := .running }))
        (.finished (.raised none))
  | doneGet (h : t.pc = .doneGet) :
      TaskCalm r t (.reply .ok) r (.doneSet (r.get t.job.jobId))
  | doneSet {raw : Option JobMeta} {pc : TaskPc} (h : t.pc = .doneSet raw)
      (hpc : pc = .after ∨ pc = .finished .returned) :
      TaskCalm r t (.reply .ok) (r.set t.job.jobId
        (updateMeta raw t.job.jobId { status := .succeeded, progress := some 1 })) pc
  | bodyReturn (h : t.pc = .body) : TaskCalm r t .bodyReturn r .doneGet
  | bodyRaise {message : Option String} (h : t.pc = .body) :
      TaskCalm r t (.bodyRaise message) r (.finished (.raised message))
  | afterReturn (h : t.pc = .after) : TaskCalm r t .afterReturn r (.finished .returned)
  | cancel {applied : Bool} (hc : t.cancelling = true) (hd : t.done = false) :
      TaskCalm r t (.cancel applied) (t.write applied r) (.finished .cancelled)

/-- The event is not an error of Redis. -/
def TaskEv.calm : TaskEv → Bool
  | .reply (.error _) => false
  | _ => true

theorem TaskCalm.of_step {r r' : Redis} {t' : Task} {e : TaskEv} (he : e.calm = true)
    (h : t.step r e = some (r', t')) : ∃ pc, TaskCalm r t e r' pc ∧ t' = { t with pc := pc } := by
  cases e with
  | start =>
      simp only [Task.step, Option.ite_none_right_eq_some, Option.some.injEq, Prod.mk.injEq] at h
      obtain ⟨hpc, rfl, rfl⟩ := h
      split
      · next hh => exact ⟨_, .start hpc hh, rfl⟩
      · exact ⟨_, .unhandled hpc, rfl⟩
  | reply reply =>
      cases reply with
      | error => cases he
      | ok =>
          obtain ⟨pc, hpc, heq⟩ := Option.map_eq_some_iff.mp h
          cases heq
          refine ⟨pc, ?_, rfl⟩
          cases htpc : t.pc <;> simp only [Task.resume, htpc, Option.some.injEq, reduceCtorEq] at hpc
          case runGet =>
            subst hpc
            simp only [Task.write, htpc]
            exact .runGet htpc
          case runSet raw =>
            subst hpc
            simp only [Task.write, htpc]
            split
            · next ht => exact .runSet htpc ht
            · exact .noTarget htpc
          case doneGet =>
            subst hpc
            simp only [Task.write, htpc]
            exact .doneGet htpc
          case doneSet raw =>
            subst hpc
            simp only [Task.write, htpc]
            refine .doneSet htpc ?_
            split
            · exact .inl rfl
            · exact .inr rfl
  | bodyReturn =>
      simp only [Task.step, Option.ite_none_right_eq_some, Option.some.injEq, Prod.mk.injEq] at h
      obtain ⟨hpc, rfl, rfl⟩ := h
      exact ⟨_, .bodyReturn hpc, rfl⟩
  | bodyRaise message =>
      simp only [Task.step, Option.ite_none_right_eq_some, Option.some.injEq, Prod.mk.injEq] at h
      obtain ⟨hpc, rfl, rfl⟩ := h
      exact ⟨_, .bodyRaise hpc, rfl⟩
  | afterReturn =>
      simp only [Task.step, Option.ite_none_right_eq_some, Option.some.injEq, Prod.mk.injEq] at h
      obtain ⟨hpc, rfl, rfl⟩ := h
      exact ⟨_, .afterReturn hpc, rfl⟩
  | cancel applied =>
      simp only [Task.step, Option.ite_none_right_eq_some, Option.some.injEq, Prod.mk.injEq] at h
      obtain ⟨⟨hc, hd⟩, rfl, rfl⟩ := h
      exact ⟨_, .cancel hc (by simpa using hd), rfl⟩

/-- The id the worker has taken off the list and is not done with. -/
def Pc.hand : Pc → Option JobId
  | .fetching j => some j
  | .job t _ => some t.job.jobId
  | _ => none

/-- What a step does when Redis answers and no task has been left. -/
inductive Calm (s : State) : Act → State → Prop
  | enqueue (j : JobId) (k : Kind) (p : Payload) :
      Calm s (.enqueue j k p) { s with redis := s.redis.enqueue j k p }
  | expire (j : JobId) (h : (s.redis.jobs j).any Entry.ttl = true) :
      Calm s (.expire j) { s with redis := s.redis.expire j }
  | sweepGet (j : JobId) :
      Calm s (.sweepGet j) { s with sweeps := (j, s.redis.get j) :: s.sweeps }
  | sweepSet {j : JobId} {raw : Option JobMeta} (error : String) (h : (j, raw) ∈ s.sweeps) :
      Calm s (.sweepSet j raw error)
        { s with
          redis := s.redis.set j (updateMeta raw j { status := .failed, error := some error })
          sweeps := s.sweeps.erase (j, raw) }
  | start (h : s.pc = .down) : Calm s .start { s with pc := .startBeat, shutdown := false }
  | startBeat (h : s.pc = .startBeat) : Calm s (.beat .ok) { s with pc := .warmUp }
  | warm (h : s.pc = .warmUp) : Calm s .warm { s with pc := .readyBeat }
  | readyBeat (h : s.pc = .readyBeat) : Calm s (.beat .ok) s.loopTop
  | loopBeat (h : s.pc = .loopBeat) : Calm s (.beat .ok) { s with pc := .popping }
  | jobBeat {t : Task} (h : s.pc = .job t .beat) : Calm s (.beat .ok) (s.afterBeat t)
  | pop {j : JobId} {q : List JobId} (h : s.pc = .popping) (hq : s.redis.queue = j :: q) :
      Calm s (.pop .ok) { s with redis := s.redis.pop, pc := .fetching j }
  | popEmpty {a : Act} (h : s.pc = .popping) (ha : a = .pop .ok ∨ a = .popTimeout false) :
      Calm s a s.loopTop
  | fetchNone {j : JobId} (h : s.pc = .fetching j) (hm : s.redis.get j = none) :
      Calm s (.fetch .ok) s.loopTop
  | fetch {j : JobId} {m : JobMeta} (h : s.pc = .fetching j) (hm : s.redis.get j = some m) :
      Calm s (.fetch .ok) { s with pc := .job ⟨m, .dispatch, false⟩ .wait }
  | wakeUp (h : s.pc = .sleeping) : Calm s .wake s.loopTop
  | wake {t : Task} (h : s.pc = .job t .wait) : Calm s .wake { s with pc := .job t .beat }
  | failGet {t : Task} {error : String} (h : s.pc = .job t (.failGet error)) :
      Calm s (.fail .ok) { s with pc := .job t (.failSet error (s.redis.get t.job.jobId)) }
  | failSet {t : Task} {error : String} {raw : Option JobMeta}
      (h : s.pc = .job t (.failSet error raw)) :
      Calm s (.fail .ok) (State.leave { s with
        redis := s.redis.set t.job.jobId
          (updateMeta raw t.job.jobId { status := .failed, error := some error }) } t)
  | requeueGet {t : Task} (h : s.pc = .job t .requeueGet) :
      Calm s (.requeue .ok) { s with pc := .job t (.requeueSet (s.redis.get t.job.jobId)) }
  | requeueSet {t : Task} {raw : Option JobMeta} (h : s.pc = .job t (.requeueSet raw)) :
      Calm s (.requeue .ok) { s with
        redis := s.redis.set t.job.jobId
          (updateMeta raw t.job.jobId { status := .queued, progress := some 0 })
        pc := .job t .requeuePush }
  | requeuePush {t : Task} (h : s.pc = .job t .requeuePush) :
      Calm s (.requeue .ok) { s with redis := s.redis.lpush t.job.jobId, pc := .closing }
  | die {a : Act} (h : a = .crash ∨ s.pc.hand = none ∧ (a = .closed ∨ a = .sigterm)) :
      Calm s a s.die
  | sigterm : Calm s .sigterm s.requestShutdown
  | task {t : Task} {p : JobPc} {e : TaskEv} {r : Redis} {pc : TaskPc} (h : s.pc = .job t p)
      (hc : TaskCalm s.redis t e r pc) :
      Calm s (.task e) { s with redis := r, pc := .job { t with pc := pc } p }

/-- No Redis command of the worker raises. -/
def Act.calm : Act → Bool
  | .beat r | .pop r | .fetch r | .fail r | .requeue r => r = .ok
  | .popTimeout applied => !applied
  | .task e => e.calm
  | .stray _ _ => false
  | _ => true

theorem Calm.of_step (ha : a.calm = true) (h : step s a = some s') : Calm s a s' := by
  cases a with
  | enqueue j k p =>
      cases h
      exact .enqueue j k p
  | expire j =>
      simp only [step, Option.ite_none_right_eq_some, Option.some.injEq] at h
      obtain ⟨ht, rfl⟩ := h
      exact .expire j ht
  | sweepGet j =>
      cases h
      exact .sweepGet j
  | sweepSet j raw error =>
      simp only [step, Option.ite_none_right_eq_some, Option.some.injEq] at h
      obtain ⟨hm, rfl⟩ := h
      exact .sweepSet error hm
  | start =>
      simp only [step, Option.ite_none_right_eq_some, Option.some.injEq] at h
      obtain ⟨hpc, rfl⟩ := h
      exact .start hpc
  | warm =>
      simp only [step, Option.ite_none_right_eq_some, Option.some.injEq] at h
      obtain ⟨hpc, rfl⟩ := h
      exact .warm hpc
  | closed =>
      simp only [step, Option.ite_none_right_eq_some, Option.some.injEq] at h
      obtain ⟨hpc, rfl⟩ := h
      exact .die (.inr ⟨by rw [hpc]; rfl, .inl rfl⟩)
  | crash =>
      simp only [step, Option.ite_none_left_eq_some, Option.some.injEq] at h
      obtain ⟨-, rfl⟩ := h
      exact .die (.inl rfl)
  | sigterm =>
      simp only [step] at h
      split at h
      · next hpc =>
          cases h
          exact .die (.inr ⟨by rw [hpc]; rfl, .inr rfl⟩)
      · next hpc =>
          cases h
          exact .die (.inr ⟨by rw [hpc]; rfl, .inr rfl⟩)
      · cases h
      · cases h
        exact .sigterm
  | popTimeout applied =>
      cases applied with
      | true => cases ha
      | false =>
          simp only [step, Option.ite_none_right_eq_some, Option.some.injEq] at h
          obtain ⟨hpc, rfl⟩ := h
          exact .popEmpty hpc (.inr rfl)
  | wake =>
      simp only [step] at h
      split at h
      · next hpc =>
          cases h
          exact .wakeUp hpc
      · next t hpc =>
          cases h
          exact .wake hpc
      · cases h
  | beat r =>
      rw [of_decide_eq_true ha] at h ⊢
      simp only [step, State.beat] at h
      split at h
      · next hpc _ =>
          cases h
          exact .startBeat hpc
      · next hpc _ =>
          cases h
          exact .readyBeat hpc
      · next hpc _ =>
          cases h
          exact .loopBeat hpc
      · next t hpc _ =>
          cases h
          exact .jobBeat hpc
      all_goals contradiction
  | pop r =>
      rw [of_decide_eq_true ha] at h ⊢
      simp only [step, State.pop] at h
      split at h
      · next j q hpc hq _ =>
          cases h
          exact .pop hpc hq
      · next hpc _ _ =>
          cases h
          exact .popEmpty hpc (.inl rfl)
      all_goals contradiction
  | fetch r =>
      rw [of_decide_eq_true ha] at h ⊢
      simp only [step, State.fetch] at h
      split at h
      · next j hpc _ =>
          split at h
          · next hm =>
              cases h
              exact .fetchNone hpc hm
          · next m hm =>
              cases h
              exact .fetch hpc hm
      all_goals contradiction
  | fail r =>
      rw [of_decide_eq_true ha] at h ⊢
      simp only [step, State.fail] at h
      split at h
      · next t error hpc =>
          cases h
          exact .failGet hpc
      · next t error raw hpc =>
          cases h
          exact .failSet hpc
      · cases h
  | requeue r =>
      rw [of_decide_eq_true ha] at h ⊢
      simp only [step, State.requeue] at h
      split at h
      · next t hpc =>
          cases h
          exact .requeueGet hpc
      · next t raw hpc =>
          cases h
          exact .requeueSet hpc
      · next t hpc =>
          cases h
          exact .requeuePush hpc
      · cases h
  | task e =>
      simp only [step] at h
      split at h
      · next t p hpc =>
          obtain ⟨⟨r, t'⟩, hx, rfl⟩ := Option.map_eq_some_iff.mp h
          obtain ⟨pc, hc, rfl⟩ := TaskCalm.of_step ha hx
          exact .task hpc hc
      · cases h
  | stray n e => cases ha

/-! ## When it does not -/

/-- The end of a task's await.  The error of a command ends the task. -/
inductive TaskMove (r : Redis) (t : Task) : TaskEv → Redis → TaskPc → Prop
  | calm {e : TaskEv} {r' : Redis} {pc : TaskPc} (h : TaskCalm r t e r' pc) :
      TaskMove r t e r' pc
  | lost {applied : Bool} {pc : TaskPc} (h : t.resume r = some pc) :
      TaskMove r t (.reply (.error applied)) (t.write applied r) (.finished (.raised none))

theorem TaskMove.of_step {r r' : Redis} {t' : Task} {e : TaskEv}
    (h : t.step r e = some (r', t')) : ∃ pc, TaskMove r t e r' pc ∧ t' = { t with pc := pc } := by
  by_cases he : e.calm = true
  · obtain ⟨pc, hc, ht⟩ := TaskCalm.of_step he h
    exact ⟨pc, .calm hc, ht⟩
  cases e with
  | reply reply =>
      cases reply with
      | ok => exact absurd rfl he
      | error applied =>
          obtain ⟨pc, hpc, heq⟩ := Option.map_eq_some_iff.mp h
          cases heq
          exact ⟨_, .lost hpc, rfl⟩
  | start | bodyReturn | bodyRaise | afterReturn | cancel => exact absurd rfl he

/-- What a step does. -/
inductive Move (s : State) : Act → State → Prop
  | calm {a : Act} {s' : State} (h : Calm s a s') : Move s a s'
  | beatDies {b : Bool} (h : s.pc = .startBeat ∨ s.pc = .readyBeat ∨ s.pc = .loopBeat) :
      Move s (.beat (.error b)) s.die
  | beatLost {t : Task} {b : Bool} (h : s.pc = .job t .beat) :
      Move s (.beat (.error b)) { s with pc := .job t (.failGet "Job failed.") }
  | popLost {b : Bool} (h : s.pc = .popping) :
      Move s (.pop (.error b))
        { s with redis := if b then s.redis.pop else s.redis, pc := .sleeping }
  | popTimeout (h : s.pc = .popping) :
      Move s (.popTimeout true) (State.loopTop { s with redis := s.redis.pop })
  | fetchLost {j : JobId} {b : Bool} (h : s.pc = .fetching j) :
      Move s (.fetch (.error b)) { s with pc := .sleeping }
  | failGetLost {t : Task} {error : String} {b : Bool} (h : s.pc = .job t (.failGet error)) :
      Move s (.fail (.error b)) s.die
  | failSetLost {t : Task} {error : String} {raw : Option JobMeta} {b : Bool}
      (h : s.pc = .job t (.failSet error raw)) :
      Move s (.fail (.error b)) (State.die { s with
        redis := if b then s.redis.set t.job.jobId
            (updateMeta raw t.job.jobId { status := .failed, error := some error })
          else s.redis })
  | requeueGetLost {t : Task} {b : Bool} (h : s.pc = .job t .requeueGet) :
      Move s (.requeue (.error b)) s.die
  | requeueSetLost {t : Task} {raw : Option JobMeta} {b : Bool}
      (h : s.pc = .job t (.requeueSet raw)) :
      Move s (.requeue (.error b)) (State.die { s with
        redis := if b then s.redis.set t.job.jobId
            (updateMeta raw t.job.jobId { status := .queued, progress := some 0 })
          else s.redis })
  | requeuePushLost {t : Task} {b : Bool} (h : s.pc = .job t .requeuePush) :
      Move s (.requeue (.error b)) (State.die { s with
        redis := if b then s.redis.lpush t.job.jobId else s.redis })
  | taskLost {t : Task} {p : JobPc} {b : Bool} {pc : TaskPc} (h : s.pc = .job t p)
      (hr : t.resume s.redis = some pc) :
      Move s (.task (.reply (.error b))) { s with
        redis := t.write b s.redis
        pc := .job { t with pc := .finished (.raised none) } p }
  | stray {n : Nat} {t : Task} {e : TaskEv} {r : Redis} {pc : TaskPc} (hn : s.strays[n]? = some t)
      (hm : TaskMove s.redis t e r pc) :
      Move s (.stray n e) { s with redis := r, strays := s.strays.set n { t with pc := pc } }

theorem Move.of_step (h : step s a = some s') : Move s a s' := by
  by_cases ha : a.calm = true
  · exact .calm (Calm.of_step ha h)
  cases a with
  | enqueue | expire | sweepGet | sweepSet | start | warm | wake | closed | sigterm | crash =>
      exact absurd rfl ha
  | beat r =>
      cases r with
      | ok => exact absurd rfl ha
      | error b =>
          cases hpc : s.pc <;> simp only [step, State.beat, hpc] at h
          case startBeat =>
            cases h
            exact .beatDies (.inl hpc)
          case readyBeat =>
            cases h
            exact .beatDies (.inr (.inl hpc))
          case loopBeat =>
            cases h
            exact .beatDies (.inr (.inr hpc))
          case job t p =>
            cases p <;> cases h
            exact .beatLost hpc
          all_goals cases h
  | pop r =>
      cases r with
      | ok => exact absurd rfl ha
      | error b =>
          cases hpc : s.pc <;> simp only [step, State.pop, hpc] at h
          case popping =>
            cases h
            exact .popLost hpc
          all_goals cases h
  | popTimeout b =>
      cases b with
      | false => exact absurd rfl ha
      | true =>
          simp only [step, Option.ite_none_right_eq_some, Option.some.injEq] at h
          obtain ⟨hpc, rfl⟩ := h
          exact .popTimeout hpc
  | fetch r =>
      cases r with
      | ok => exact absurd rfl ha
      | error b =>
          cases hpc : s.pc <;> simp only [step, State.fetch, hpc] at h
          case fetching j =>
            cases h
            exact .fetchLost hpc
          all_goals cases h
  | fail r =>
      cases r with
      | ok => exact absurd rfl ha
      | error b =>
          simp only [step, State.fail] at h
          split at h
          · next hpc =>
              cases h
              exact .failGetLost hpc
          · next hpc =>
              cases h
              exact .failSetLost hpc
          · cases h
  | requeue r =>
      cases r with
      | ok => exact absurd rfl ha
      | error b =>
          simp only [step, State.requeue] at h
          split at h
          · next hpc =>
              cases h
              exact .requeueGetLost hpc
          · next hpc =>
              cases h
              exact .requeueSetLost hpc
          · next hpc =>
              cases h
              exact .requeuePushLost hpc
          · cases h
  | task e =>
      simp only [step] at h
      split at h
      · next t p hpc =>
          obtain ⟨⟨r, t'⟩, hx, rfl⟩ := Option.map_eq_some_iff.mp h
          obtain ⟨pc, hm, rfl⟩ := TaskMove.of_step hx
          cases hm with
          | calm hc => exact .calm (.task hpc hc)
          | lost hr => exact .taskLost hpc hr
      · cases h
  | stray n e =>
      simp only [step] at h
      split at h
      · next t hn =>
          obtain ⟨⟨r, t'⟩, hx, rfl⟩ := Option.map_eq_some_iff.mp h
          obtain ⟨pc, hm, rfl⟩ := TaskMove.of_step hx
          exact .stray hn hm
      · cases h

end Adapta.Jobs
