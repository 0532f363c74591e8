import Adapta.Inference.Engine

/-!
# Exclusion on one `Llama` instance

A `Llama` object is not safe for concurrent calls, so the engine promises that at
most one native call runs on an instance at any time and that the lock is never
released under a running call.  `Exclusive` states both.

The argument is one invariant, `Inv`: every call is at a consistent stage
(`Stage`), which fixes who holds the lock, and the jobs of the executor are exactly
the futures that are still pending.  From it follow

* `Reach.exclusive`, for the runs in which no stream is cancelled while its executor
  call is unfinished, and `cancel_not_exclusive`, which shows that such a
  cancellation does break exclusion;
* `Reach.balanced` and `exists_release`, the accounting of the lock for the
  non-streaming path: each acquire gets exactly one release.
-/

namespace Adapta.Inference

open Lib

variable {s s' : State} {i j : CallId} {w : Nat}

/-! ## The state operations -/

namespace State

@[simp] theorem modify_calls_self (f : Call → Call) : (s.modify i f).calls i = f (s.calls i) := by
  simp [modify]

theorem modify_calls_of_ne (f : Call → Call) (h : j ≠ i) :
    (s.modify i f).calls j = s.calls j := by
  simp [modify, h]

@[simp] theorem modify_lock (f : Call → Call) : (s.modify i f).lock = s.lock := rfl
@[simp] theorem modify_queued (f : Call → Call) : (s.modify i f).queued = s.queued := rfl
@[simp] theorem modify_running (f : Call → Call) : (s.modify i f).running = s.running := rfl
@[simp] theorem modify_badReleases (f : Call → Call) :
    (s.modify i f).badReleases = s.badReleases := rfl

/-- Whether the lock was last acquired by `i` and is still held. -/
def holds (s : State) (i : CallId) : Bool := s.lock == some i

@[simp] theorem holds_iff : s.holds i = true ↔ s.lock = some i := by simp [holds]

@[simp] theorem modify_holds (f : Call → Call) : (s.modify i f).holds j = s.holds j := rfl

/-- The executor's unfinished jobs. -/
def jobs (s : State) : List CallId := s.queued ++ s.running

/-- What one step may do to the calls it is not about: nothing. -/
structure Frame (i : CallId) (s s' : State) : Prop where
  calls : ∀ j, j ≠ i → s'.calls j = s.calls j
  holds : ∀ j, j ≠ i → s'.holds j = s.holds j
  jobs : ∀ j, j ≠ i → (j ∈ s'.jobs ↔ j ∈ s.jobs)

namespace Frame

protected theorem trans {t : State} (h : Frame i s t) (h' : Frame i t s') : Frame i s s' where
  calls j hj := (h'.calls j hj).trans (h.calls j hj)
  holds j hj := (h'.holds j hj).trans (h.holds j hj)
  jobs j hj := (h'.jobs j hj).trans (h.jobs j hj)

theorem modify (f : Call → Call) : Frame i s (s.modify i f) :=
  ⟨fun _ hj ↦ modify_calls_of_ne f hj, fun _ _ ↦ rfl, fun _ _ ↦ Iff.rfl⟩

theorem submit : Frame i s (s.submit i) := by
  refine ⟨?_, fun _ _ ↦ rfl, ?_⟩
  · intro j hj
    simpa [State.submit] using modify_calls_of_ne (s := s) _ hj
  · intro j hj
    simp [State.jobs, State.submit, hj]

theorem release (h : s.lock = some i) : Frame i s (s.release i) := by
  refine ⟨?_, ?_, ?_⟩
  · intro j hj
    simpa [State.release, h] using modify_calls_of_ne (s := s) _ hj
  · intro j hj
    simp [State.release, State.holds, h, Ne.symm hj]
  · intro j hj
    simp [State.jobs, State.release, h]

end Frame

end State

/-! ## Stages of a call -/

/-- The consistent stages of a call; the flag says whether the call holds the lock.

A non-streaming call that is over for its caller (`finished`) may still be
`inFlight`: that is what a timeout or a cancellation leaves behind.  A stream that
is over is `closed`, and must have no pending future: that is the clause a late
cancellation breaks. -/
inductive Stage : Call → Bool → Prop
  /-- Nothing submitted: before the acquire, or given up before it. -/
  | idle {k : Kind} {pc : Pc} (hpc : pc = .absent ∨ pc = .begin ∨ pc = .acquiring ∨
      ∃ o, pc = .finished o) : Stage ⟨k, pc, .idle, 0, 0⟩ false
  /-- `_run_locked` has submitted its call and the done-callback has not run. -/
  | inFlight {k : Kind} {pc : Pc} {fut : Fut} (hk : k.streaming = false)
      (hpc : pc = .waiting ∨ ∃ o, pc = .finished o) (hf : fut = .pending ∨ fut = .returned) :
      Stage ⟨k, pc, fut, 1, 0⟩ true
  /-- The done-callback of `_run_locked` has released the lock. -/
  | settled {k : Kind} {pc : Pc} (hk : k.streaming = false)
      (hpc : pc = .waiting ∨ ∃ o, pc = .finished o) : Stage ⟨k, pc, .settled, 1, 1⟩ false
  /-- A stream awaits its creation or its next token. -/
  | pulling {k : Kind} {pc : Pc} {fut : Fut} (hk : k.streaming = true)
      (hpc : pc = .creating ∨ pc = .pulling) (hf : fut = .pending ∨ fut = .returned) :
      Stage ⟨k, pc, fut, 1, 0⟩ true
  /-- A stream waits for its consumer. -/
  | yielded {k : Kind} (hk : k.streaming = true) : Stage ⟨k, .yielded, .idle, 1, 0⟩ true
  /-- A stream has left its `finally` block. -/
  | closed {k : Kind} {o : Outcome} {fut : Fut} (hk : k.streaming = true)
      (hf : fut ≠ .pending) : Stage ⟨k, .finished o, fut, 1, 1⟩ false

namespace Stage

variable {c : Call} {held : Bool}

/-- The lock is held under every pending future. -/
theorem held_of_pending (h : Stage c held) (hf : c.fut = .pending) : held = true := by
  cases h with
  | inFlight | pulling | yielded => rfl
  | idle | settled => cases hf
  | closed _ hn => exact absurd hf hn

/-- The lock accounting that holds at every stage: a call acquires at most once, and
owes a release exactly while it holds the lock. -/
theorem accounting (h : Stage c held) :
    c.acquires ≤ 1 ∧ c.acquires = c.releases + held.toNat := by
  cases h <;> simp

/-- Before the first await nothing has been submitted. -/
theorem eq_fresh (h : Stage c held) (hpc : c.pc = .absent ∨ c.pc = .begin ∨ c.pc = .acquiring) :
    (∃ k pc, c = .fresh k pc) ∧ held = false := by
  cases h with
  | idle => exact ⟨⟨_, _, rfl⟩, rfl⟩
  | inFlight _ hp | settled _ hp => obtain rfl | ⟨o, rfl⟩ := hp <;> simp at hpc
  | pulling _ hp => obtain rfl | rfl := hp <;> simp at hpc
  | yielded | closed => simp at hpc

/-- A call on the `_run_locked` path may end for its caller at any await. -/
theorem finish (h : Stage c held)
    (hpc : c.pc = .begin ∨ c.pc = .acquiring ∨ c.pc = .waiting) (o : Outcome) :
    Stage { c with pc := .finished o } held := by
  cases h with
  | idle => exact .idle (Or.inr (Or.inr (Or.inr ⟨o, rfl⟩)))
  | inFlight hk _ hf => exact .inFlight hk (Or.inr ⟨o, rfl⟩) hf
  | settled hk => exact .settled hk (Or.inr ⟨o, rfl⟩)
  | pulling _ hp => obtain rfl | rfl := hp <;> simp at hpc
  | yielded | closed => simp at hpc

end Stage

/-! ## The invariant -/

/-- Every call is at a consistent stage, and the executor's jobs are the pending
futures, each submitted once. -/
structure Inv (s : State) : Prop where
  stage : ∀ i, Stage (s.calls i) (s.holds i)
  jobs : ∀ i, i ∈ s.jobs ↔ (s.calls i).fut = .pending
  nodup : s.jobs.Nodup
  good : s.badReleases = 0

namespace Inv

theorem init : Inv State.init where
  stage _ := .idle (Or.inl rfl)
  jobs i := by simp [State.jobs, State.init, Call.fresh]
  nodup := by simp [State.jobs, State.init]
  good := rfl

/-- Only the call a step is about has to be looked at. -/
theorem of_frame (h : Inv s) (hf : s.Frame i s')
    (hstage : Stage (s'.calls i) (s'.holds i))
    (hjobs : i ∈ s'.jobs ↔ (s'.calls i).fut = .pending) (hnodup : s'.jobs.Nodup)
    (hgood : s'.badReleases = 0) : Inv s' where
  stage j := by
    by_cases hj : j = i
    · exact hj ▸ hstage
    · rw [hf.calls j hj, hf.holds j hj]
      exact h.stage j
  jobs j := by
    by_cases hj : j = i
    · exact hj ▸ hjobs
    · rw [hf.jobs j hj, hf.calls j hj]
      exact h.jobs j
  nodup := hnodup
  good := hgood

/-- A job's call holds the lock. -/
theorem lock_of_job (h : Inv s) (hi : i ∈ s.jobs) : s.lock = some i :=
  State.holds_iff.mp ((h.stage i).held_of_pending ((h.jobs i).mp hi))

/-- A job's call is the only one that holds the lock, so there is at most one job. -/
theorem jobs_length (h : Inv s) : s.jobs.length ≤ 1 := by
  match hj : s.jobs with
  | [] | [_] => simp
  | i :: k :: _ =>
      have hi := h.lock_of_job (i := i) (by simp [hj])
      have hk := h.lock_of_job (i := k) (by simp [hj])
      have hik : i = k := by simpa [hi] using hk
      simpa [hj, hik] using h.nodup

/-! ### Steps that move one program counter -/

theorem setPc (h : Inv s) {pc : Pc} (hst : Stage { s.calls i with pc := pc } (s.holds i)) :
    Inv (s.setPc i pc) :=
  h.of_frame (.modify _) (by simpa [State.setPc] using hst)
    (by simpa [State.setPc, State.jobs] using h.jobs i) h.nodup h.good

/-! ### Streams between two native calls -/

/-- A stream holds the lock and has no job: what `generate_stream` is in whenever it
reaches its token loop or its `finally` block in a good run. -/
structure Between (s : State) (i : CallId) : Prop where
  streaming : (s.calls i).kind.streaming = true
  lock : s.lock = some i
  fut : (s.calls i).fut ≠ .pending
  acquires : (s.calls i).acquires = 1
  releases : (s.calls i).releases = 0

theorem finishStream (h : Inv s) (hb : Between s i) (o : Outcome) :
    Inv (s.finishStream i o) := by
  have hnj : i ∉ s.jobs := fun hi ↦ hb.fut ((h.jobs i).mp hi)
  have hc : (s.finishStream i o).calls i =
      { s.calls i with pc := .finished o, releases := (s.calls i).releases + 1 } := by
    simp [State.finishStream, State.release, State.setPc, hb.lock]
  have hl : (s.finishStream i o).holds i = false := by
    simp [State.finishStream, State.release, State.setPc, State.holds, hb.lock]
  have hj : (s.finishStream i o).jobs = s.jobs := by
    simp [State.finishStream, State.release, State.setPc, State.jobs, hb.lock]
  refine h.of_frame ((State.Frame.modify _).trans (.release hb.lock)) ?_ ?_ (hj ▸ h.nodup) ?_
  · rw [hc, hl, hb.releases]
    have := Stage.closed (o := o) hb.streaming hb.fut
    simpa [hb.acquires] using this
  · rw [hj, hc]
    simpa [hnj] using hb.fut
  · simpa [State.finishStream, State.release, State.setPc, hb.lock] using h.good

theorem yield (h : Inv s) (hb : Between s i) :
    Inv ((s.modify i fun c ↦ { c with fut := .idle }).setPc i .yielded) := by
  have hnj : i ∉ s.jobs := fun hi ↦ hb.fut ((h.jobs i).mp hi)
  refine h.of_frame ((State.Frame.modify _).trans (.modify _)) ?_ ?_ h.nodup h.good
  · have := Stage.yielded hb.streaming
    simpa [State.setPc, State.holds, hb.lock, hb.acquires, hb.releases] using this
  · simpa [State.setPc, State.jobs] using hnj

theorem tokenLoop (h : Inv s) (hb : Between s i) (expired : Bool) :
    Inv (s.tokenLoop i expired) := by
  unfold State.tokenLoop
  split
  · exact h.finishStream hb _
  · have hnj : i ∉ s.jobs := fun hi ↦ hb.fut ((h.jobs i).mp hi)
    have hc : ((s.submit i).setPc i .pulling).calls i =
        { s.calls i with pc := .pulling, fut := .pending } := by
      simp [State.setPc, State.submit]
    refine h.of_frame (State.Frame.submit.trans (.modify _)) ?_ ?_ ?_ h.good
    · rw [hc]
      have := Stage.pulling hb.streaming (Or.inr rfl) (Or.inl rfl)
      simpa [State.setPc, State.submit, State.holds, hb.lock, hb.acquires, hb.releases] using this
    · rw [hc]
      simp [State.jobs, State.setPc, State.submit]
    · have := h.nodup
      simp only [State.jobs, State.setPc, State.submit, State.modify_queued,
        State.modify_running] at this hnj ⊢
      grind

/-! ### Steps of the executor -/

theorem acquire (h : Inv s) (hpc : (s.calls i).pc = .acquiring) (hl : s.lock = none) :
    Inv ((({ s.modify i fun c ↦ { c with acquires := c.acquires + 1 } with
      lock := some i } : State).submit i).setPc i
        (if (s.calls i).kind.streaming then .creating else .waiting)) := by
  have hst := h.stage i
  have hnj : i ∉ s.jobs := fun hi ↦ by simpa [hl] using h.lock_of_job hi
  refine h.of_frame (i := i) ⟨?_, ?_, ?_⟩ ?_ ?_ ?_ h.good
  · intro j hj
    simp [State.setPc, State.submit, State.modify, hj]
  · intro j hj
    simp [State.setPc, State.submit, State.holds, State.modify, hl, Ne.symm hj]
  · intro j hj
    simp [State.jobs, State.setPc, State.submit, hj]
  · generalize hc : s.calls i = c at hst hpc
    generalize s.holds i = held at hst
    cases hst with
    | @idle k pc =>
        cases hk : k.streaming
        · have := @Stage.inFlight k .waiting .pending hk (Or.inl rfl) (Or.inl rfl)
          simpa [State.setPc, State.submit, State.holds, State.modify, hc, hk] using this
        · have := @Stage.pulling k .creating .pending hk (Or.inl rfl) (Or.inl rfl)
          simpa [State.setPc, State.submit, State.holds, State.modify, hc, hk] using this
    | inFlight _ hp | settled _ hp => obtain rfl | ⟨o, rfl⟩ := hp <;> cases hpc
    | pulling _ hp => obtain rfl | rfl := hp <;> cases hpc
    | yielded | closed => cases hpc
  · simp [State.jobs, State.setPc, State.submit, State.modify]
  · have := h.nodup
    simp only [State.jobs, State.setPc, State.submit, State.modify] at this hnj ⊢
    grind

theorem threadStart (h : Inv s) {q : List CallId} (hq : s.queued = i :: q) :
    Inv { s with queued := q, running := i :: s.running } := by
  have hp : (q ++ i :: s.running).Perm s.jobs := by
    rw [State.jobs, hq]
    exact List.perm_middle
  exact ⟨h.stage, fun j ↦ hp.mem_iff.trans (h.jobs j), hp.nodup_iff.mpr h.nodup, h.good⟩

theorem threadReturn (h : Inv s) (hi : i ∈ s.running) :
    Inv { s.modify i fun c ↦ { c with fut := .returned } with running := s.running.erase i } := by
  have hj : i ∈ s.jobs := List.mem_append_right _ hi
  have hp := (h.jobs i).mp hj
  have hnd := h.nodup
  have hst := h.stage i
  have hni : i ∉ s.queued ++ s.running.erase i := by
    simp only [State.jobs] at hnd
    grind [List.Nodup.mem_erase_iff]
  refine h.of_frame (i := i) ⟨?_, fun _ _ ↦ rfl, ?_⟩ ?_ ?_ ?_ h.good
  · intro j hj
    simp [State.modify, hj]
  · intro j hj
    simp [State.jobs, List.mem_erase_of_ne hj]
  · change Stage _ (s.holds i)
    generalize hc : s.calls i = c at hst hp
    generalize s.holds i = held at hst ⊢
    cases hst with
    | inFlight hk hpc => simpa [State.modify, hc] using Stage.inFlight hk hpc (Or.inr rfl)
    | pulling hk hpc => simpa [State.modify, hc] using Stage.pulling hk hpc (Or.inr rfl)
    | idle | settled | yielded => cases hp
    | closed _ hf => exact absurd hp hf
  · simpa [State.jobs, State.modify] using hni
  · simp only [State.jobs] at hnd ⊢
    exact hnd.sublist ((List.Sublist.refl _).append (List.erase_sublist))

theorem doneCallback (h : Inv s) (hk : (s.calls i).kind.streaming = false)
    (hf : (s.calls i).fut = .returned) :
    Inv ((s.modify i fun c ↦ { c with fut := .settled }).release i) := by
  have hst := h.stage i
  have hnj : i ∉ s.jobs := fun hi ↦ by simpa [hf] using (h.jobs i).mp hi
  have hl : s.lock = some i := by
    rw [← State.holds_iff]
    generalize s.calls i = c at hst hk hf
    generalize s.holds i = held at hst ⊢
    cases hst with
    | inFlight => rfl
    | pulling hk' | closed hk' => simp [hk] at hk'
    | idle | settled | yielded => cases hf
  refine h.of_frame ((State.Frame.modify _).trans (.release hl)) ?_ ?_ ?_ ?_
  · have hh : s.holds i = true := State.holds_iff.mpr hl
    rw [hh] at hst
    generalize hc : s.calls i = c at hst hk hf
    cases hst with
    | inFlight _ hpc =>
        simpa [State.release, State.holds, State.modify, hl, hc] using Stage.settled hk hpc
    | pulling hk' => simp [hk] at hk'
    | yielded => cases hf
  · simpa [State.release, State.jobs, State.modify, hl] using hnj
  · simpa [State.release, State.jobs, State.modify, hl] using h.nodup
  · simpa [State.release, State.modify, hl] using h.good

/-- A stream that is not waiting for a job is between two native calls. -/
theorem between (h : Inv s)
    (hpc : (s.calls i).pc = .creating ∨ (s.calls i).pc = .pulling ∨ (s.calls i).pc = .yielded)
    (hf : (s.calls i).fut ≠ .pending) : Between s i := by
  have hst := h.stage i
  have hl : s.holds i = true ↔ s.lock = some i := State.holds_iff
  generalize s.holds i = held at hst hl
  generalize hc : s.calls i = c at hst hpc hf
  cases hst with
  | pulling hk | yielded hk =>
      exact ⟨by simpa [hc], hl.mp rfl, by simp_all, by simp [hc], by simp [hc]⟩
  | idle hp => obtain rfl | rfl | rfl | ⟨o, rfl⟩ := hp <;> simp at hpc
  | inFlight _ hp | settled _ hp => obtain rfl | ⟨o, rfl⟩ := hp <;> simp at hpc
  | closed => simp at hpc

theorem between_of_yielded (h : Inv s) (hpc : (s.calls i).pc = .yielded) : Between s i := by
  apply h.between (Or.inr (Or.inr hpc))
  have hst := h.stage i
  generalize s.calls i = c at hst hpc
  generalize s.holds i = held at hst
  cases hst with
  | yielded => simp
  | idle hp => obtain rfl | rfl | rfl | ⟨o, rfl⟩ := hp <;> cases hpc
  | inFlight _ hp | settled _ hp => obtain rfl | ⟨o, rfl⟩ := hp <;> cases hpc
  | pulling _ hp => obtain rfl | rfl := hp <;> cases hpc
  | closed => cases hpc

end Inv

/-! ## Runs -/

/-- The cancellation of a stream while its executor call is unfinished. -/
def LateCancel (s : State) : Act → Prop
  | .cancel i =>
      ((s.calls i).pc = .creating ∨ (s.calls i).pc = .pulling) ∧ i ∈ s.jobs
  | _ => False

instance (s : State) (a : Act) : Decidable (LateCancel s a) := by
  cases a <;> unfold LateCancel <;> infer_instance

/-- Every step but a late cancellation preserves the invariant. -/
theorem Inv.step (h : Inv s) {a : Act} (ha : ¬LateCancel s a) (hn : step w s a = some s') :
    Inv s' := by
  cases a with
  | call i k =>
      simp only [Inference.step, Option.ite_none_right_eq_some, Option.some.injEq] at hn
      obtain ⟨hpc, rfl⟩ := hn
      obtain ⟨⟨_, _, hc⟩, hh⟩ := (h.stage i).eq_fresh (Or.inl hpc)
      have hnj : i ∉ s.jobs := fun hi ↦ by simpa [hc, Call.fresh] using (h.jobs i).mp hi
      refine h.of_frame (.modify _) ?_ ?_ h.nodup h.good
      · rw [State.modify_calls_self, State.modify_holds, hh]
        exact .idle (Or.inr (Or.inl rfl))
      · simpa [State.jobs, Call.fresh] using hnj
  | begin i =>
      simp only [Inference.step, Option.ite_none_right_eq_some, Option.some.injEq] at hn
      obtain ⟨hpc, rfl⟩ := hn
      obtain ⟨⟨_, _, hc⟩, hh⟩ := (h.stage i).eq_fresh (Or.inr (Or.inl hpc))
      apply h.setPc
      rw [hc, hh]
      exact .idle (Or.inr (Or.inr (Or.inl rfl)))
  | acquire i =>
      simp only [Inference.step, Option.ite_none_right_eq_some, Option.some.injEq] at hn
      obtain ⟨⟨hpc, hl⟩, rfl⟩ := hn
      exact h.acquire hpc hl
  | threadStart =>
      simp only [Inference.step] at hn
      split at hn
      · cases hn
      · rename_i i q hq
        simp only [Option.ite_none_right_eq_some, Option.some.injEq] at hn
        obtain ⟨_, rfl⟩ := hn
        exact h.threadStart hq
  | threadReturn i =>
      simp only [Inference.step, Option.ite_none_right_eq_some, Option.some.injEq] at hn
      obtain ⟨hi, rfl⟩ := hn
      exact h.threadReturn hi
  | doneCallback i =>
      simp only [Inference.step, Option.ite_none_right_eq_some, Option.some.injEq] at hn
      obtain ⟨⟨hk, hf⟩, rfl⟩ := hn
      exact h.doneCallback hk hf
  | resume i r expired =>
      simp only [Inference.step] at hn
      -- a settled future belongs to `_run_locked`, a returned one to a stream
      split at hn <;> simp only [Option.some.injEq, reduceCtorEq] at hn <;> subst hn
      case h_1 hpc _ => exact h.setPc ((h.stage i).finish (Or.inr (Or.inr hpc)) _)
      case h_2 hpc _ _ => exact h.setPc ((h.stage i).finish (Or.inr (Or.inr hpc)) _)
      case h_3 hpc hf => exact h.finishStream (h.between (by simp [hpc]) (by simp [hf])) _
      case h_4 hpc hf _ => exact h.tokenLoop (h.between (by simp [hpc]) (by simp [hf])) _
      case h_5 hpc hf => exact h.finishStream (h.between (by simp [hpc]) (by simp [hf])) _
      case h_6 hpc hf => exact h.finishStream (h.between (by simp [hpc]) (by simp [hf])) _
      case h_7 hpc hf => exact h.yield (h.between (by simp [hpc]) (by simp [hf]))
      case h_8 hpc hf => exact h.tokenLoop (h.between (by simp [hpc]) (by simp [hf])) _
  | next i expired =>
      simp only [Inference.step, Option.ite_none_right_eq_some, Option.some.injEq] at hn
      obtain ⟨hpc, rfl⟩ := hn
      exact h.tokenLoop (h.between_of_yielded hpc) _
  | timeout i =>
      simp only [Inference.step, Option.ite_none_right_eq_some, Option.some.injEq] at hn
      obtain ⟨hpc, rfl⟩ := hn
      exact h.setPc ((h.stage i).finish (Or.inr (Or.inr hpc)) _)
  | cancel i =>
      simp only [Inference.step] at hn
      split at hn <;> simp only [Option.some.injEq, reduceCtorEq] at hn <;> subst hn
      case h_1 hpc => exact h.setPc ((h.stage i).finish (Or.inl hpc) _)
      case h_2 hpc => exact h.setPc ((h.stage i).finish (Or.inr (Or.inl hpc)) _)
      case h_3 hpc => exact h.setPc ((h.stage i).finish (Or.inr (Or.inr hpc)) _)
      -- here the guard says that no native call of the stream is unfinished
      case h_4 hpc =>
        have hf : (s.calls i).fut ≠ .pending := fun hf ↦ ha ⟨Or.inl hpc, (h.jobs i).mpr hf⟩
        exact h.finishStream (h.between (Or.inl hpc) hf) _
      case h_5 hpc =>
        have hf : (s.calls i).fut ≠ .pending := fun hf ↦ ha ⟨Or.inr hpc, (h.jobs i).mpr hf⟩
        exact h.finishStream (h.between (Or.inr (Or.inl hpc)) hf) _
      case h_6 hpc => exact h.finishStream (h.between_of_yielded hpc) _

/-- At most one native call runs on the instance, and a running native call holds
the lock: when the lock is released, no native call started under it is running. -/
def Exclusive (s : State) : Prop := s.running.length ≤ 1 ∧ ∀ i ∈ s.running, s.lock = some i

instance (s : State) : Decidable (Exclusive s) := by unfold Exclusive; infer_instance

theorem Inv.exclusive (h : Inv s) : Exclusive s := by
  refine ⟨?_, fun i hi ↦ h.lock_of_job (List.mem_append_right _ hi)⟩
  have := h.jobs_length
  simp only [State.jobs, List.length_append] at this
  omega

/-- A late cancellation frees the lock under the running call. -/
theorem cancel_not_exclusive (hi : i ∈ s.running) (hc : LateCancel s (.cancel i))
    (hn : step w s (.cancel i) = some s') : ¬Exclusive s' := by
  have hs : s' = s.finishStream i .cancelled := by
    obtain ⟨hpc | hpc, _⟩ := hc <;> simpa [step, hpc] using hn.symm
  subst hs
  rintro ⟨_, h⟩
  have := h i (by
    unfold State.finishStream State.release
    split <;> simpa [State.setPc] using hi)
  unfold State.finishStream State.release at this
  split at this <;> simp_all [State.setPc]

/-- **Streaming exclusion**, exactly as far as it holds.  In every run in which no
stream is cancelled while its executor call is unfinished, the instance is used
exclusively in every state; and in any of these states, cancelling a stream whose
native call is running breaks exclusion at once. -/
theorem exclusive_of_no_late_cancel (maxWorkers : Nat) (s : State)
    (h : (engine maxWorkers).Reach (fun s a ↦ ¬LateCancel s a) s) :
    Exclusive s ∧ ∀ i s', i ∈ s.running → LateCancel s (.cancel i) →
      step maxWorkers s (.cancel i) = some s' → ¬Exclusive s' := by
  have hinv : Inv s := h.invariant Inv.init fun _ _ _ hs ha hn ↦ hs.step ha hn
  exact ⟨hinv.exclusive, fun i s' hi hc hn ↦ cancel_not_exclusive hi hc hn⟩

/-- One stream pulls two tokens and is then cancelled while its consumer holds a token. -/
def politeRun : List Act :=
  [.call 0 .generateStream, .begin 0, .acquire 0, .threadStart, .threadReturn 0,
    .resume 0 .empty false, .threadStart, .threadReturn 0, .resume 0 .delta false, .cancel 0,
    .call 1 .generate, .begin 1, .acquire 1, .threadStart]

/-- The hypothesis of `exclusive_of_no_late_cancel` is met by a run that ends inside a
native call, after a stream was cancelled between two tokens. -/
theorem exclusive_politeRun : ∃ s, (engine 2).Reach (fun s a ↦ ¬LateCancel s a) s ∧
    s.running = [1] ∧ Exclusive s := by
  obtain ⟨s, hs, hr⟩ := System.Reach.of_exec (S := engine 2) (g := fun s a ↦ ¬LateCancel s a)
    (l := politeRun) (f := State.running) (b := [1]) (by decide)
  exact ⟨s, hs, hr, (exclusive_of_no_late_cancel 2 s hs).1⟩

/-- The consumer of a stream disconnects while a thread is inside `next(stream)`; a
second stream is granted the lock and enters the instance as well. -/
def lateCancelRun : List Act :=
  [.call 0 .generateStream, .begin 0, .acquire 0, .threadStart, .threadReturn 0,
    .resume 0 .empty false, .threadStart, .cancel 0,
    .call 1 .generateStream, .begin 1, .acquire 1, .threadStart]

/-- With the default pool of two threads, two native calls run on one instance. -/
theorem lateCancelRun_overlaps :
    ∃ s, (engine 2).Reachable s ∧ s.running = [1, 0] ∧ s.lock = some 1 ∧ ¬Exclusive s := by
  obtain ⟨s, hs, hr⟩ := System.Reach.of_exec (S := engine 2) (g := fun _ _ ↦ True)
    (l := lateCancelRun) (f := fun s ↦ (s.running, s.lock)) (b := ([1, 0], some 1)) (by decide)
  obtain ⟨hr, hl⟩ := Prod.mk.inj hr
  exact ⟨s, hs, hr, hl, fun h ↦ by simpa [hr] using h.1⟩

/-! ## The non-streaming path -/

/-- Only `generate` and `generate_chat` are called. -/
def NonStreaming (_ : State) : Act → Prop
  | .call _ k => k.streaming = false
  | _ => True

instance (s : State) (a : Act) : Decidable (NonStreaming s a) := by
  cases a <;> unfold NonStreaming <;> infer_instance

/-- The lock around the non-streaming path. -/
structure Serialized (s : State) : Prop where
  /-- At most one native call runs at a time. -/
  atMostOne : s.running.length ≤ 1
  /-- The lock is held from the submission of a call until after it has returned. -/
  held : ∀ i, i ∈ s.queued ∨ i ∈ s.running ∨ (s.calls i).fut = .returned → s.lock = some i
  /-- A call acquires at most once, and every acquire has had its one release, except
  that of the call holding the lock, which has had none. -/
  matched : ∀ i, (s.calls i).acquires ≤ 1 ∧
    (s.calls i).acquires = (s.calls i).releases + if s.lock = some i then 1 else 0
  /-- No release found the lock free. -/
  good : s.badReleases = 0

namespace State

theorem kind_modify {f : Call → Call} (hf : ∀ c, (f c).kind = c.kind) :
    ((s.modify i f).calls j).kind = (s.calls j).kind := by
  by_cases hj : j = i
  · subst hj
    simp [hf]
  · rw [modify_calls_of_ne f hj]

@[simp] theorem kind_setPc (pc : Pc) : ((s.setPc i pc).calls j).kind = (s.calls j).kind :=
  kind_modify fun _ ↦ rfl

@[simp] theorem kind_submit : ((s.submit i).calls j).kind = (s.calls j).kind := by
  simp [submit, kind_modify]

@[simp] theorem kind_release : ((s.release i).calls j).kind = (s.calls j).kind := by
  unfold release
  split <;> simp [kind_modify]

@[simp] theorem kind_finishStream (o : Outcome) :
    ((s.finishStream i o).calls j).kind = (s.calls j).kind := by simp [finishStream]

@[simp] theorem kind_tokenLoop (expired : Bool) :
    ((s.tokenLoop i expired).calls j).kind = (s.calls j).kind := by
  unfold tokenLoop
  split <;> simp

end State

/-- Only a new call sets a kind. -/
theorem step_kind {a : Act} (hn : step w s a = some s') (j : CallId) :
    (s'.calls j).kind = (s.calls j).kind ∨ ∃ k, a = .call j k ∧ (s'.calls j).kind = k := by
  cases a with
  | call i k =>
      simp only [step, Option.ite_none_right_eq_some, Option.some.injEq] at hn
      obtain ⟨_, rfl⟩ := hn
      by_cases hj : j = i
      · subst hj
        exact Or.inr ⟨k, rfl, by simp [Call.fresh]⟩
      · exact Or.inl (by rw [State.modify_calls_of_ne _ hj])
  | begin i | next i | timeout i =>
      simp only [step, Option.ite_none_right_eq_some, Option.some.injEq] at hn
      obtain ⟨_, rfl⟩ := hn
      simp
  | acquire i =>
      simp only [step, Option.ite_none_right_eq_some, Option.some.injEq] at hn
      obtain ⟨_, rfl⟩ := hn
      left
      simp only [State.kind_setPc, State.kind_submit]
      exact State.kind_modify fun _ ↦ rfl
  | threadStart =>
      simp only [step] at hn
      split at hn
      · cases hn
      · simp only [Option.ite_none_right_eq_some, Option.some.injEq] at hn
        obtain ⟨_, rfl⟩ := hn
        exact Or.inl rfl
  | threadReturn i =>
      simp only [step, Option.ite_none_right_eq_some, Option.some.injEq] at hn
      obtain ⟨_, rfl⟩ := hn
      simp [State.kind_modify]
  | doneCallback i =>
      simp only [step, Option.ite_none_right_eq_some, Option.some.injEq] at hn
      obtain ⟨_, rfl⟩ := hn
      left
      rw [State.kind_release]
      exact State.kind_modify fun _ ↦ rfl
  | resume i r expired =>
      left
      simp only [step] at hn
      split at hn <;> simp only [Option.some.injEq, reduceCtorEq] at hn <;> subst hn
      case h_7 =>
        rw [State.kind_setPc]
        exact State.kind_modify fun _ ↦ rfl
      all_goals simp
  | cancel i =>
      left
      simp only [step] at hn
      split at hn <;> simp only [Option.some.injEq, reduceCtorEq] at hn <;> subst hn <;> simp

/-- In a run without streams no call is ever on the streaming path, so no
cancellation is a late one. -/
theorem inv_of_nonStreaming (h : (engine w).Reach NonStreaming s) :
    Inv s ∧ ∀ i, (s.calls i).kind.streaming = false := by
  refine h.invariant (P := fun s ↦ Inv s ∧ ∀ i, (s.calls i).kind.streaming = false)
    ⟨Inv.init, fun _ ↦ rfl⟩ ?_
  rintro s a s' ⟨hi, hk⟩ ha hn
  refine ⟨hi.step ?_ hn, ?_⟩
  · intro hc
    cases a with
    | cancel i =>
        -- a call at `creating` or `pulling` holds the lock as a stream
        have hst := hi.stage i
        have hki := hk i
        obtain ⟨hpc, _⟩ := hc
        generalize s.calls i = c at hst hki hpc
        generalize s.holds i = held at hst
        cases hst with
        | pulling hk' => simp [hki] at hk'
        | idle hp => obtain rfl | rfl | rfl | ⟨o, rfl⟩ := hp <;> simp at hpc
        | inFlight _ hp | settled _ hp => obtain rfl | ⟨o, rfl⟩ := hp <;> simp at hpc
        | yielded | closed => simp at hpc
    | _ => exact hc
  · intro j
    rcases step_kind hn j with hj | ⟨k, rfl, hj⟩
    · rw [hj]
      exact hk j
    · rw [hj]
      exact ha

theorem Inv.serialized (h : Inv s) (hk : ∀ i, (s.calls i).kind.streaming = false) :
    Serialized s where
  atMostOne := h.exclusive.1
  held i := by
    rintro (hq | hr | hf)
    · exact h.lock_of_job (List.mem_append_left _ hq)
    · exact h.lock_of_job (List.mem_append_right _ hr)
    · have hst := h.stage i
      have hki := hk i
      rw [← State.holds_iff]
      generalize s.calls i = c at hst hki hf
      generalize s.holds i = held at hst ⊢
      cases hst with
      | inFlight | pulling => rfl
      | closed hk' => simp [hki] at hk'
      | idle | settled | yielded => cases hf
  matched i := by
    have h₁ := (h.stage i).accounting
    refine ⟨h₁.1, ?_⟩
    rw [h₁.2]
    by_cases hl : s.lock = some i
    · simp [hl, State.holds]
    · simp [hl, State.holds]
  good := h.good

/-- The executor alone, by events of call `i`, brings the lock back: `i` has released
as often as it acquired. -/
inductive Drains (w : Nat) (i : CallId) : State → Prop
  | released {s : State} (hl : s.lock = none)
      (hr : (s.calls i).acquires = (s.calls i).releases) : Drains w i s
  | event {s s' : State} {a : Act}
      (ha : a = .threadStart ∨ a = .threadReturn i ∨ a = .doneCallback i)
      (hn : step w s a = some s') (hd : Drains w i s') : Drains w i s

namespace Inv

theorem drains_of_returned (h : Inv s) (hk : (s.calls i).kind.streaming = false)
    (hl : s.lock = some i) (hf : (s.calls i).fut = .returned) : Drains w i s := by
  have hn : Inference.step w s (.doneCallback i) =
      some ((s.modify i fun c ↦ { c with fut := .settled }).release i) := by
    simp [Inference.step, hk, hf]
  have hl' : ((s.modify i fun c ↦ { c with fut := .settled }).release i).lock = none := by
    simp [State.release, hl]
  refine .event (Or.inr (Or.inr rfl)) hn (.released hl' ?_)
  have hacc := ((h.step id hn).stage i).accounting
  simpa [State.holds, hl'] using hacc.2

theorem drains_of_running (h : Inv s) (hk : (s.calls i).kind.streaming = false)
    (hi : i ∈ s.running) : Drains w i s := by
  have hn : Inference.step w s (.threadReturn i) = some
      { s.modify i fun c ↦ { c with fut := .returned } with running := s.running.erase i } := by
    simp [Inference.step, hi]
  have hl := h.lock_of_job (List.mem_append_right _ hi)
  refine .event (Or.inr (Or.inl rfl)) hn ?_
  exact (h.step id hn).drains_of_returned (by simpa using hk) hl (by simp)

/-- The only job is that of the lock's holder, so if it is queued no thread is busy. -/
theorem drains_of_queued (h : Inv s) (hk : (s.calls i).kind.streaming = false)
    (hw : 0 < w) (hi : i ∈ s.queued) : Drains w i s := by
  have hlen := h.jobs_length
  simp only [State.jobs, List.length_append] at hlen
  have hpos := List.length_pos_of_mem hi
  have hrun : s.running.length < w := by omega
  obtain ⟨q, hq⟩ : ∃ q, s.queued = i :: q := by
    match hq : s.queued with
    | [] => simp [hq] at hi
    | [j] => simp_all
    | _ :: _ :: _ => simp only [hq, List.length_cons] at hlen; omega
  have hn : Inference.step w s .threadStart =
      some { s with queued := q, running := i :: s.running } := by
    simp [Inference.step, hq, hrun]
  refine .event (Or.inl rfl) hn ?_
  exact (h.step id hn).drains_of_running hk (by simp)

/-- The release a holder of the lock owes comes from the executor alone: its call is
started if need be, returns, and the done-callback releases the lock. -/
theorem drains (h : Inv s) (hk : ∀ i, (s.calls i).kind.streaming = false) (hw : 0 < w)
    (hl : s.lock = some i) : Drains w i s := by
  have hst := h.stage i
  have hki := hk i
  rw [State.holds_iff.mpr hl] at hst
  generalize hc : s.calls i = c at hst hki
  cases hst with
  | inFlight _ _ hf =>
      obtain rfl | rfl := hf
      · have hj : i ∈ s.jobs := (h.jobs i).mpr (by simp [hc])
        rcases List.mem_append.mp hj with hq | hr
        · exact h.drains_of_queued (hk i) hw hq
        · exact h.drains_of_running (hk i) hr
      · exact h.drains_of_returned (hk i) hl (by simp [hc])
  | pulling hk' | yielded hk' => simp [hki] at hk'

end Inv

/-- **Non-streaming exclusion.**  In every state reached by `generate` and
`generate_chat` calls, whatever times out or is cancelled: native calls are
serialized, the lock covers each of them from its submission until after its return,
every acquire has exactly one release, and the one that is still owed follows from
the executor finishing the call. -/
theorem serialized_of_nonStreaming (maxWorkers : Nat) (hw : 0 < maxWorkers) (s : State)
    (h : (engine maxWorkers).Reach NonStreaming s) :
    Serialized s ∧ ∀ i, s.lock = some i → Drains maxWorkers i s := by
  obtain ⟨hinv, hk⟩ := inv_of_nonStreaming h
  exact ⟨hinv.serialized hk, fun i hl ↦ hinv.drains hk hw hl⟩

/-- Three calls contend: the first times out while its native call runs, the second is
cancelled in the queue for the lock, the third waits. -/
def contendedRun : List Act :=
  [.call 0 .generate, .begin 0, .acquire 0, .threadStart, .call 1 .generateChat, .begin 1,
    .call 2 .generate, .begin 2, .timeout 0, .cancel 1]

/-- The timed-out call still holds the lock over its native call. -/
theorem serialized_contendedRun : ∃ s, (engine 2).Reach NonStreaming s ∧
    (s.calls 0).pc = .finished .timeout ∧ s.lock = some 0 ∧ s.running = [0] ∧
      Serialized s ∧ Drains 2 0 s := by
  obtain ⟨s, hs, hr⟩ := System.Reach.of_exec (S := engine 2) (g := NonStreaming)
    (l := contendedRun) (f := fun s ↦ ((s.calls 0).pc, s.lock, s.running))
    (b := (.finished .timeout, some 0, [0])) (by decide)
  simp only [Prod.mk.injEq] at hr
  obtain ⟨hpc, hl, hrun⟩ := hr
  have := serialized_of_nonStreaming 2 (by decide) s hs
  exact ⟨s, hs, hpc, hl, hrun, this.1, this.2 0 hl⟩

end Adapta.Inference
