import Adapta.Jobs.Queued

/-!
# When Redis answers

Two facts about the steps in which no Redis command of the worker raises are used where
the queue is one part of a larger system:

* an id is in the list or in the hands of the worker at most once, if it is enqueued once
  (`held_sublist`);
* the recorded status of a job that is in either place is `queued` or `running`, as long as
  nobody else writes it and its body has not returned (`Tracks`).
-/

namespace Adapta.Jobs

open Lib

variable {s s' : State} {a : Act} {i j : JobId} {k : Kind} {t : Task}

/-! ## Where an id is -/

/-- The ids in the worker's hands and in the list. -/
def State.held (s : State) : List JobId := s.pc.hand.toList ++ s.redis.queue

@[simp] theorem loopTop_hand (s : State) : s.loopTop.pc.hand = none := by
  rw [State.loopTop]
  split <;> rfl

@[simp] theorem loopTop_redis (s : State) : s.loopTop.redis = s.redis := rfl

theorem TaskCalm.queue_eq {r r' : Redis} {e : TaskEv} {pc : TaskPc} (h : TaskCalm r t e r' pc) :
    r'.queue = r.queue := (TaskMove.calm h).queue_eq

/-- A step of the worker moves ids from the list to its hands and back, or loses one. -/
theorem held_sublist (hs : Named s) (h : Calm s a s') (ha : ∀ j k p, a ≠ .enqueue j k p) :
    s'.held.Sublist s.held := by
  have hdrop : s.redis.queue.Sublist s.held := List.sublist_append_right _ _
  have htop : s.loopTop.held.Sublist s.held := by
    rw [State.held, loopTop_hand]
    exact hdrop
  cases h with
  | enqueue j k p => exact absurd rfl (ha j k p)
  | expire | sweepGet | sweepSet => exact .refl _
  | start | warm | loopBeat | startBeat => exact hdrop
  | readyBeat | popEmpty | fetchNone | wakeUp => exact htop
  | jobBeat hpc =>
      simp only [State.afterBeat]
      split
      · exact htop
      all_goals
        simp only [State.held, hpc]
        exact .refl _
  | pop hpc hq =>
      simp only [State.held, hpc, Pc.hand, Redis.pop, hq]
      exact .refl _
  | fetch hpc hm =>
      simp only [State.held, hpc, Pc.hand, hs.jobs _ _ hm]
      exact .refl _
  | wake hpc | failGet hpc | requeueGet hpc | requeueSet hpc =>
      simp only [State.held, hpc]
      exact .refl _
  | failSet hpc =>
      simp only [State.leave, State.held, loopTop_hand]
      exact hdrop
  | requeuePush hpc =>
      simp only [State.held, hpc, Pc.hand, Redis.lpush]
      exact .refl _
  | die => exact hdrop
  | sigterm =>
      simp only [State.requestShutdown]
      split
      · next t p hpc =>
          simp only [State.held, hpc, Pc.hand]
          exact .refl _
      · exact .refl _
  | task hpc hc =>
      simp only [State.held, hpc, Pc.hand, hc.queue_eq]
      exact .refl _

/-! ## The recorded status -/

/-- An expiry is set exactly on the metadata of finished jobs. -/
def Timed (s : State) : Prop :=
  ∀ j e, s.redis.jobs j = some e → e.ttl = e.job.status.terminal

theorem Timed.init : Timed State.init := by
  rintro j e ⟨⟩

theorem Writes.timed {e' : Option Entry} (h : Writes s a j e') :
    ∀ e, e' = some e → e.ttl = e.job.status.terminal := by
  intro e he
  cases h with
  | enqueue =>
      simp only [Redis.enqueue, Function.update_self, Option.some.injEq] at he
      rw [← he]
      rfl
  | expire => cases he
  | sweep | fail | requeue | run | done =>
      cases he
      rfl

theorem Timed.step (h : Timed s) (hn : Jobs.step s a = some s') : Timed s' := by
  intro j e he
  rcases step_jobs hn with heq | ⟨k, e', hw, heq⟩
  · exact h j e (heq ▸ he)
  by_cases hj : j = k
  · subst hj
    rw [heq, Function.update_self] at he
    exact hw.timed e he
  · rw [heq, Function.update_of_ne hj] at he
    exact h j e he

/-- The metadata of `j` is of kind `k` and has one of the statuses `l`. -/
def Redis.Has (r : Redis) (j : JobId) (k : Kind) (l : List JobStatus) : Prop :=
  ∃ m, r.get j = some m ∧ m.kind = some k ∧ m.status ∈ l

/-- What an `update_status` has read is of kind `k`. -/
def OfKind (k : Kind) (raw : Option JobMeta) : Prop := ∃ m, raw = some m ∧ m.kind = some k

namespace Redis.Has

variable {r : Redis} {l l' : List JobStatus}

theorem mono (h : r.Has j k l) (hl : ∀ x ∈ l, x ∈ l') : r.Has j k l' := by
  obtain ⟨m, hm, hk, hst⟩ := h
  exact ⟨m, hm, hk, hl _ hst⟩

theorem ofKind (h : r.Has j k l) : OfKind k (r.get j) := by
  obtain ⟨m, hm, hk, -⟩ := h
  exact ⟨m, hm, hk⟩

theorem status (h : r.Has j k l) : ∃ x ∈ l, r.status j = some x := by
  obtain ⟨m, hm, -, hst⟩ := h
  exact ⟨m.status, hst, by rw [Redis.status, hm]; rfl⟩

theorem congr {r' : Redis} (hj : r'.jobs j = r.jobs j) (h : r.Has j k l) : r'.Has j k l := by
  obtain ⟨m, hm, hk, hst⟩ := h
  exact ⟨m, by rw [Redis.get, hj]; exact hm, hk, hst⟩

/-- An update keeps the kind. -/
theorem of_set {raw : Option JobMeta} (h : OfKind k raw) (u : Update) (hl : u.status ∈ l) :
    (r.set j (updateMeta raw j u)).Has j k l := by
  obtain ⟨m, rfl, hk⟩ := h
  exact ⟨(updateMeta (some m) j u).job, by simp [Redis.get, Redis.set], hk, hl⟩

end Redis.Has

/-- The recorded status fits the task in flight: it is `queued` until the task has written
`running`, and then `running` until the body returns. -/
def TaskPc.Fits (r : Redis) (j : JobId) (k : Kind) : TaskPc → Prop
  | .dispatch | .runGet => r.Has j k [.queued]
  | .runSet raw => r.Has j k [.queued] ∧ OfKind k raw
  | .body => r.Has j k [.running]
  | .finished (.raised _) | .finished .cancelled => r.Has j k [.queued, .running]
  | .doneGet | .doneSet _ | .after | .finished .returned => False

/-- The same for the shutdown branch of the loop. -/
def JobPc.Tracks (r : Redis) (j : JobId) (k : Kind) : JobPc → Prop
  | .requeueSet raw => OfKind k raw
  | .requeuePush => r.Has j k [.queued]
  | _ => True

/-- What is recorded of a job that is in the worker's hands. -/
def Pc.Tracks (r : Redis) (j : JobId) (k : Kind) : Pc → Prop
  | .fetching i => i = j → r.Has j k [.queued]
  | .job t p => t.job.jobId = j → t.job.kind = some k ∧ t.pc.Fits r j k ∧ p.Tracks r j k
  | _ => True

/-- The job `j` of kind `k`, wherever it is, has the status that belongs there. -/
structure Tracks (s : State) (j : JobId) (k : Kind) : Prop where
  queue : j ∈ s.redis.queue → s.redis.Has j k [.queued]
  pc : s.pc.Tracks s.redis j k

/-- A job in the hands of the worker is recorded as `queued` or `running`. -/
theorem Tracks.has_of_hand (h : Tracks s j k) (hh : s.pc.hand = some j) :
    s.redis.Has j k [.queued, .running] := by
  have hq : ∀ r : Redis, r.Has j k [.queued] → r.Has j k [.queued, .running] :=
    fun r hr ↦ hr.mono (by simp)
  have hpc := h.pc
  cases hs : s.pc with
  | fetching i =>
      rw [hs] at hh hpc
      cases hh
      exact hq _ (hpc rfl)
  | job t p =>
      rw [hs] at hh hpc
      cases hh
      obtain ⟨-, hfit, -⟩ := hpc rfl
      cases htpc : t.pc <;> rw [htpc] at hfit
      case dispatch | runGet => exact hq _ hfit
      case runSet => exact hq _ hfit.1
      case body => exact hfit.mono (by simp)
      case doneGet | doneSet | after => exact hfit.elim
      case finished e =>
        cases e with
        | returned => exact hfit.elim
        | raised | cancelled => exact hfit
  | down | startBeat | warmUp | readyBeat | loopBeat | popping | sleeping | closing =>
      rw [hs] at hh
      cases hh

theorem Pc.Tracks.of_hand_ne {r : Redis} {pc : Pc} (h : pc.hand ≠ some j) : pc.Tracks r j k := by
  cases pc with
  | fetching i | job t p =>
      rintro rfl
      exact absurd rfl h
  | down | startBeat | warmUp | readyBeat | loopBeat | popping | sleeping | closing => trivial

section Congr

variable {r r' : Redis}

theorem TaskPc.Fits.congr {pc : TaskPc} (hj : r'.jobs j = r.jobs j) (h : pc.Fits r j k) :
    pc.Fits r' j k := by
  cases pc with
  | dispatch | runGet | body => exact Redis.Has.congr hj h
  | runSet raw => exact ⟨h.1.congr hj, h.2⟩
  | doneGet | doneSet | after => exact h
  | finished e =>
      cases e with
      | returned => exact h
      | raised | cancelled => exact Redis.Has.congr hj h

theorem JobPc.Tracks.congr {p : JobPc} (hj : r'.jobs j = r.jobs j) (h : p.Tracks r j k) :
    p.Tracks r' j k := by
  cases p with
  | requeueSet raw => exact h
  | requeuePush => exact Redis.Has.congr hj h
  | wait | beat | failGet | failSet | requeueGet => trivial

theorem Pc.Tracks.congr {pc : Pc} (hj : r'.jobs j = r.jobs j) (h : pc.Tracks r j k) :
    pc.Tracks r' j k := by
  cases pc with
  | fetching i => exact fun hi ↦ (h hi).congr hj
  | job t p =>
      intro ht
      obtain ⟨hk, hfit, hp⟩ := h ht
      exact ⟨hk, hfit.congr hj, hp.congr hj⟩
  | down | startBeat | warmUp | readyBeat | loopBeat | popping | sleeping | closing => trivial

end Congr

namespace Tracks

/-- Nothing is said of a job that is nowhere. -/
theorem of_not_held (h : j ∉ s.held) : Tracks s j k := by
  rw [State.held, List.mem_append, not_or] at h
  exact ⟨fun hq ↦ absurd hq h.2, .of_hand_ne fun hh ↦ h.1 (Option.mem_toList.mpr hh)⟩

/-- A job that was nowhere is enqueued. -/
theorem enqueue (h : j ∉ s.held) (p : Payload) :
    Tracks { s with redis := s.redis.enqueue j k p } j k := by
  rw [State.held, List.mem_append, not_or] at h
  refine ⟨?_, .of_hand_ne fun hh ↦ h.1 (Option.mem_toList.mpr hh)⟩
  intro _
  simp [Redis.Has, Redis.get, Redis.enqueue]

/-- A step that does not write the metadata of `j`. -/
theorem of_jobs_eq (h : Tracks s j k) (hj : s'.redis.jobs j = s.redis.jobs j)
    (hq : j ∈ s'.redis.queue → j ∈ s.redis.queue) (hpc : s'.pc.Tracks s.redis j k) :
    Tracks s' j k := ⟨fun hm ↦ (h.queue (hq hm)).congr hj, hpc.congr hj⟩

/-- The loop is at its top, with the same data. -/
theorem loopTop (h : Tracks s j k) : Tracks s.loopTop j k := by
  refine h.of_jobs_eq rfl id ?_
  rw [State.loopTop]
  split <;> trivial

/-- Metadata that is about to expire is that of a job that is nowhere. -/
theorem not_held_of_ttl (h : Tracks s j k) (ht : Timed s)
    (hx : (s.redis.jobs j).any Entry.ttl = true) : j ∉ s.held := by
  obtain ⟨e, he, httl⟩ := (Option.any_eq_true _ _).mp hx
  have hno : ∀ l : List JobStatus, (∀ x ∈ l, x.terminal = false) → ¬s.redis.Has j k l := by
    rintro l hl ⟨m, hm, -, hst⟩
    rw [Redis.get, he, Option.map_some, Option.some.injEq] at hm
    rw [ht j e he, hm, hl _ hst] at httl
    cases httl
  rw [State.held, List.mem_append, not_or]
  refine ⟨?_, fun hq ↦ hno _ (by decide) (h.queue hq)⟩
  intro hh
  exact hno _ (by decide) (h.has_of_hand (Option.mem_toList.mp hh))

/-- What is recorded of the job whose task is in flight. -/
theorem job {p : JobPc} (h : Tracks s j k) (hpc : s.pc = .job t p) (hj : t.job.jobId = j) :
    t.job.kind = some k ∧ t.pc.Fits s.redis j k ∧ p.Tracks s.redis j k := by
  have htr := h.pc
  rw [hpc] at htr
  exact htr hj

/-- The job in hand is not in the list. -/
theorem not_mem_queue {p : JobPc} (hnd : s.held.Nodup) (hpc : s.pc = .job t p) :
    t.job.jobId ∉ s.redis.queue := by
  simp only [State.held, hpc, Pc.hand, Option.toList_some, List.singleton_append] at hnd
  exact (List.nodup_cons.mp hnd).1

/-- An event of the task in flight. -/
theorem task {p : JobPc} {e : TaskEv} {r : Redis} {pc : TaskPc} (h : Tracks s j k)
    (hnd : s.held.Nodup) (hpc : s.pc = .job t p) (hc : TaskCalm s.redis t e r pc)
    (hb : e = .bodyReturn → t.job.jobId ≠ j) (hp : p.Fits t) :
    Tracks { s with redis := r, pc := .job { t with pc := pc } p } j k := by
  have hq := hc.queue_eq
  by_cases hj : t.job.jobId = j
  · subst hj
    have hnq : t.job.jobId ∉ r.queue := hq ▸ not_mem_queue hnd hpc
    obtain ⟨hk, hfit, -⟩ := h.job hpc rfl
    -- the task is not done, so the loop is waiting for it
    have hwait : t.done = false → p.Tracks r t.job.jobId k := by
      intro hd
      cases p with
      | wait | beat => trivial
      | failGet | failSet =>
          rw [Task.done_of_raised hp] at hd
          cases hd
      | requeueGet | requeueSet | requeuePush => cases hp.symm.trans hd
    have hset : ∀ {raw : Option JobMeta} {l : List JobStatus} (u : Update), OfKind k raw →
        u.status ∈ l →
        (s.redis.set t.job.jobId (updateMeta raw t.job.jobId u)).Has t.job.jobId k l :=
      fun u hraw hl ↦ .of_set hraw u hl
    refine ⟨fun hm ↦ absurd hm hnq, fun _ ↦ ⟨hk, ?_, hwait (TaskMove.calm hc).not_done⟩⟩
    cases hc with
    | start h₁ | runGet h₁ =>
        rw [h₁] at hfit
        first | exact hfit | exact ⟨hfit, hfit.ofKind⟩
    | unhandled h₁ =>
        rw [h₁] at hfit
        exact hfit.mono (by simp)
    | runSet h₁ =>
        rw [h₁] at hfit
        exact hset _ hfit.2 (by simp)
    | noTarget h₁ =>
        rw [h₁] at hfit
        exact hset _ hfit.2 (by simp)
    | bodyReturn => exact absurd rfl (hb rfl)
    | bodyRaise h₁ =>
        rw [h₁] at hfit
        exact hfit.mono (by simp)
    | doneGet h₁ | doneSet h₁ | afterReturn h₁ =>
        rw [h₁] at hfit
        exact hfit.elim
    | @cancel applied hcan hd =>
        have hsame : s.redis.Has t.job.jobId k [.queued, .running] :=
          h.has_of_hand (by rw [hpc]; rfl)
        show (t.write applied s.redis).Has t.job.jobId k [.queued, .running]
        simp only [Task.write]
        split
        · next raw h₁ =>
            rw [h₁] at hfit
            exact hset _ hfit.2 (by simp)
        · next raw h₁ =>
            rw [h₁] at hfit
            exact hfit.elim
        · exact hsame
  · have hr : r.jobs j = s.redis.jobs j := by
      obtain ⟨b, rfl⟩ := (TaskMove.calm hc).redis_eq
      simp only [Task.write]
      split
      · simp [Redis.set, Ne.symm hj]
      · simp [Redis.set, Ne.symm hj]
      · rfl
    exact h.of_jobs_eq hr (fun hm ↦ hq ▸ hm) fun ht ↦ absurd ht hj

/-- A write of the job in hand that is another's. -/
theorem of_set_ne {p : Pc} {e : Entry} (h : Tracks s j k) (hi : j ≠ i)
    (hp : p.Tracks s.redis j k) : Tracks { s with redis := s.redis.set i e, pc := p } j k :=
  h.of_jobs_eq (by simp [Redis.set, hi]) id hp

/-- The loop goes on with the job in hand. -/
theorem job_moved {p p' : JobPc} (h : Tracks s j k) (hpc : s.pc = .job t p)
    (hp : p'.Tracks s.redis j k) : (Pc.job t p').Tracks s.redis j k := by
  intro hj
  obtain ⟨hk, hfit, -⟩ := h.job hpc hj
  exact ⟨hk, hfit, hp⟩

/-- The loop records the failure of the job in hand, which is then nowhere. -/
theorem failSet {error : String} {raw : Option JobMeta} (h : Tracks s j k) (hnd : s.held.Nodup)
    (hpc : s.pc = .job t (.failSet error raw)) :
    Tracks ({ s with
      redis := s.redis.set t.job.jobId
        (updateMeta raw t.job.jobId { status := .failed, error := some error }) }.leave t) j k := by
  by_cases hj : t.job.jobId = j
  · subst hj
    have hnq : t.job.jobId ∉ s.redis.queue := not_mem_queue hnd hpc
    apply of_not_held
    simp only [State.leave, State.held, loopTop_hand]
    exact hnq
  · have hset := h.of_set_ne (e := updateMeta raw t.job.jobId
      { status := .failed, error := some error }) (Ne.symm hj) (p := s.pc) h.pc
    exact loopTop (s := { s with
      redis := s.redis.set t.job.jobId _
      strays := _ }) ⟨hset.queue, hset.pc⟩

/-- The loop records the job in hand as `queued` again, before it pushes it. -/
theorem requeueSet {raw : Option JobMeta} (h : Tracks s j k)
    (hpc : s.pc = .job t (.requeueSet raw)) (hd : t.done = true) :
    Tracks { s with
      redis := s.redis.set t.job.jobId
        (updateMeta raw t.job.jobId { status := .queued, progress := some 0 })
      pc := .job t .requeuePush } j k := by
  by_cases hj : t.job.jobId = j
  · subst hj
    obtain ⟨hk, hfit, hraw⟩ := h.job hpc rfl
    have hq : ∀ l : List JobStatus, .queued ∈ l →
        (s.redis.set t.job.jobId (updateMeta raw t.job.jobId
          { status := .queued, progress := some 0 })).Has t.job.jobId k l :=
      fun l hl ↦ .of_set hraw _ hl
    refine ⟨fun _ ↦ hq _ (by simp), fun _ ↦ ⟨hk, ?_, hq _ (by simp)⟩⟩
    -- a task that is done has not returned here, so `queued` belongs to it
    cases htpc : t.pc <;> rw [htpc] at hfit <;> simp [Task.done, htpc] at hd
    case finished e =>
      cases e with
      | returned => exact hfit.elim
      | raised | cancelled => exact hq _ (by simp)
  · exact h.of_set_ne (Ne.symm hj) fun hj' ↦ absurd hj' hj

/-- The job keeps the status that belongs to its place, as long as others do not write it
and its body does not return. -/
theorem step (h : Tracks s j k) (hs : Named s) (ht : Timed s) (hi : InStep s)
    (hnd : s.held.Nodup) (hc : Calm s a s') (he : ∀ k p, a ≠ .enqueue j k p)
    (hw : ∀ raw error, a ≠ .sweepSet j raw error)
    (hb : a = .task .bodyReturn → s.pc.hand ≠ some j) : Tracks s' j k := by
  cases hc with
  | enqueue i k' p =>
      have hij : j ≠ i := by
        rintro rfl
        exact he k' p rfl
      refine h.of_jobs_eq (by simp [Redis.enqueue, hij]) ?_ h.pc
      intro hm
      simpa [Redis.enqueue, hij] using hm
  | expire i hx =>
      by_cases hij : j = i
      · subst hij
        exact of_not_held (h.not_held_of_ttl ht hx)
      · exact h.of_jobs_eq (by simp [Redis.expire, hij]) id h.pc
  | sweepGet => exact h.of_jobs_eq rfl id h.pc
  | @sweepSet i raw error hm =>
      have hij : j ≠ i := by
        rintro rfl
        exact hw raw error rfl
      exact h.of_jobs_eq (by simp [Redis.set, hij]) id h.pc
  | start | startBeat | warm | loopBeat => exact h.of_jobs_eq rfl id trivial
  | readyBeat | popEmpty | fetchNone | wakeUp => exact h.loopTop
  | jobBeat hpc =>
      simp only [State.afterBeat]
      split
      · exact h.loopTop
      all_goals exact h.of_jobs_eq rfl id (h.job_moved hpc trivial)
  | pop hpc hq =>
      refine h.of_jobs_eq rfl ?_ fun hij ↦ h.queue ?_
      · intro hm
        exact List.mem_of_mem_tail hm
      · rw [hq, hij]
        exact List.mem_cons_self
  | @fetch i m hpc hm =>
      have htr := h.pc
      rw [hpc] at htr
      refine h.of_jobs_eq rfl id ?_
      intro hj
      have hij : i = j := (hs.jobs i m hm).symm.trans hj
      obtain ⟨m', hm', hk, hst⟩ := htr hij
      rw [hij] at hm
      cases hm.symm.trans hm'
      exact ⟨hk, ⟨m, hm, hk, hst⟩, trivial⟩
  | wake hpc | failGet hpc => exact h.of_jobs_eq rfl id (h.job_moved hpc trivial)
  | failSet hpc => exact h.failSet hnd hpc
  | @requeueGet t hpc =>
      refine h.of_jobs_eq rfl id ?_
      intro hj
      obtain ⟨hk, hfit, -⟩ := h.job hpc hj
      subst hj
      exact ⟨hk, hfit, (h.has_of_hand (by rw [hpc]; rfl)).ofKind⟩
  | requeueSet hpc => exact h.requeueSet hpc (hi.fits _ _ hpc)
  | @requeuePush t hpc =>
      by_cases hj : t.job.jobId = j
      · obtain ⟨-, -, hq⟩ := h.job hpc hj
        exact ⟨fun _ ↦ Redis.Has.congr rfl hq, trivial⟩
      · refine h.of_jobs_eq rfl ?_ trivial
        intro hm
        rcases List.mem_cons.mp hm with rfl | hm
        · exact absurd rfl hj
        · exact hm
  | die => exact h.of_jobs_eq rfl id trivial
  | sigterm =>
      simp only [State.requestShutdown]
      split
      · next t p hpc =>
          have htr := h.pc
          rw [hpc] at htr
          exact h.of_jobs_eq rfl id htr
      · exact h.of_jobs_eq rfl id h.pc
  | task hpc htc =>
      refine h.task hnd hpc htc ?_ (hi.fits _ _ hpc)
      intro hbr hj
      subst hbr
      exact hb rfl (by rw [hpc, ← hj]; rfl)

end Tracks

end Adapta.Jobs
