import Mathlib.Data.List.Infix
import Mathlib.Data.List.Nodup

/-!
# Serial delivery with redelivery

One server takes jobs off the front of a line, one at a time.  A job it has started is
finished, or put back at the front, any number of times.  `Delivery l b log` says that
`log` can have happened and that `l` is now the line, the job being served first; `b` tells
whether that job has been started.

The log alone then determines what a client may rely on: no job is lost or doubled
(`perm`, `nodup`), jobs are first started in the order of their arrival (`fifo`), and a job
put back is the next one started (`next`).
-/

namespace Lib

universe u

variable {α : Type u}

inductive Event (α : Type u) where
  | enqueued (j : α)
  | started (j : α)
  | requeued (j : α)
  | finished (j : α)
deriving DecidableEq

namespace Event

/-- The jobs that have arrived, in this order. -/
def arrivals (log : List (Event α)) : List α :=
  log.filterMap fun e ↦ match e with | enqueued j => some j | _ => none

/-- The jobs that are done. -/
def done (log : List (Event α)) : List α :=
  log.filterMap fun e ↦ match e with | finished j => some j | _ => none

/-- The job put back last, if none has been started since. -/
def awaiting (log : List (Event α)) : Option α :=
  log.foldl (fun w e ↦ match e with | requeued j => some j | started _ => none | _ => w) none

section

variable (log : List (Event α)) (j : α)

@[simp] theorem arrivals_append (log' : List (Event α)) :
    arrivals (log ++ log') = arrivals log ++ arrivals log' := List.filterMap_append

@[simp] theorem arrivals_enqueued : arrivals [enqueued j] = [j] := rfl
@[simp] theorem arrivals_started : arrivals [started j] = [] := rfl
@[simp] theorem arrivals_requeued : arrivals [requeued j] = [] := rfl
@[simp] theorem arrivals_finished : arrivals [finished j] = [] := rfl

@[simp] theorem done_append (log' : List (Event α)) :
    done (log ++ log') = done log ++ done log' := List.filterMap_append

@[simp] theorem done_enqueued : done [enqueued j] = [] := rfl
@[simp] theorem done_started : done [started j] = [] := rfl
@[simp] theorem done_requeued : done [requeued j] = [] := rfl
@[simp] theorem done_finished : done [finished j] = [j] := rfl

@[simp] theorem awaiting_enqueued : awaiting (log ++ [enqueued j]) = awaiting log := by
  simp [awaiting]

@[simp] theorem awaiting_started : awaiting (log ++ [started j]) = none := by simp [awaiting]

@[simp] theorem awaiting_requeued : awaiting (log ++ [requeued j]) = some j := by simp [awaiting]

@[simp] theorem awaiting_finished : awaiting (log ++ [finished j]) = awaiting log := by
  simp [awaiting]

end

end Event

open Event

/-- The line `l` of a server after the events `log`; `b` tells whether its first job is
being served. -/
inductive Delivery : List α → Bool → List (Event α) → Prop
  | init : Delivery [] false []
  | enqueue {l : List α} {b : Bool} {log : List (Event α)} {j : α} (h : Delivery l b log)
      (hj : j ∉ arrivals log) : Delivery (l ++ [j]) b (log ++ [enqueued j])
  | start {l : List α} {log : List (Event α)} {j : α} (h : Delivery (j :: l) false log) :
      Delivery (j :: l) true (log ++ [started j])
  | requeue {l : List α} {b : Bool} {log : List (Event α)} {j : α}
      (h : Delivery (j :: l) b log) : Delivery (j :: l) false (log ++ [requeued j])
  | finish {l : List α} {log : List (Event α)} {j : α} (h : Delivery (j :: l) true log) :
      Delivery l false (log ++ [finished j])

namespace Delivery

variable {l : List α} {b : Bool} {log : List (Event α)} {i j : α}

/-- Every job that has arrived is in the line or done, and is there once. -/
theorem perm (h : Delivery l b log) : (l ++ done log).Perm (arrivals log) := by
  induction h with
  | init => exact .refl _
  | @enqueue l b log j _ _ ih =>
      simp only [done_append, done_enqueued, List.append_nil, arrivals_append, arrivals_enqueued]
      refine .trans ?_ (ih.append_right [j])
      simp only [List.append_assoc]
      exact List.perm_append_comm.append_left l
  | start | requeue => simpa
  | @finish l log j _ ih =>
      simp only [done_append, done_finished, arrivals_append, arrivals_finished, List.append_nil]
      refine .trans ?_ ih
      rw [← List.append_assoc]
      exact List.perm_append_comm

theorem nodup (h : Delivery l b log) : (arrivals log).Nodup := by
  induction h with
  | init => exact .nil
  | enqueue _ hj ih =>
      rw [arrivals_append, arrivals_enqueued, ← List.concat_eq_append]
      exact ih.concat hj
  | start | requeue | finish => simpa

/-- No job is at two places. -/
theorem nodup_places (h : Delivery l b log) : (l ++ done log).Nodup :=
  h.perm.nodup_iff.mpr h.nodup

/-- The job being served has been started. -/
theorem started_of_busy (h : Delivery l b log) (hb : b = true) :
    ∃ j, l.head? = some j ∧ started j ∈ log := by
  induction h with
  | init | requeue | finish => cases hb
  | enqueue _ _ ih =>
      obtain ⟨j, hl, hj⟩ := ih hb
      exact ⟨j, by simp [hl], List.mem_append_left _ hj⟩
  | start => exact ⟨_, rfl, by simp⟩

theorem mem_arrivals_of_started (h : Delivery l b log) (hj : started j ∈ log) :
    j ∈ arrivals log := by
  induction h with
  | init => cases hj
  | @start l log k h ih =>
      simp only [List.mem_append, List.mem_singleton, started.injEq] at hj
      rw [arrivals_append, arrivals_started, List.append_nil]
      rcases hj with hj | rfl
      · exact ih hj
      · exact h.perm.subset (by simp)
  | enqueue _ _ ih | requeue _ ih | finish _ ih =>
      rw [arrivals_append, List.mem_append]
      exact .inl (ih (by simpa using hj))

/-- The jobs not started yet stand in the line as they have arrived. -/
theorem filter_eq [DecidableEq α] (h : Delivery l b log) :
    l.filter (started · ∉ log) = (arrivals log).filter (started · ∉ log) := by
  induction h with
  | init => rfl
  | @enqueue l b log j h hj ih =>
      have hs : started j ∉ log := fun hs ↦ hj (h.mem_arrivals_of_started hs)
      simpa [hs] using ih
  | @start l log j _ ih =>
      have hsplit : ∀ m : List α, m.filter (started · ∉ log ++ [started j]) =
          (m.filter (started · ∉ log)).filter (· ≠ j) := by
        intro m
        rw [List.filter_filter]
        apply List.filter_congr
        intro x _
        simp [and_comm]
      rw [hsplit, hsplit, ih, arrivals_append, arrivals_started, List.append_nil]
  | requeue _ ih => simpa using ih
  | @finish l log j h ih =>
      obtain ⟨k, hk, hs⟩ := h.started_of_busy rfl
      cases hk
      simpa [hs] using ih

/-- An unstarted job at the front of the line is the first unstarted arrival. -/
theorem started_of_before [DecidableEq α] (h : Delivery (j :: l) b log) (hj : started j ∉ log)
    (hij : [i, j].Sublist (arrivals log)) : started i ∈ log := by
  by_contra hi
  have hsub : [i, j].Sublist ((arrivals log).filter (started · ∉ log)) := by
    simpa [hi, hj] using hij.filter (started · ∉ log)
  rw [← h.filter_eq, List.filter_cons_of_pos (by simpa using hj)] at hsub
  have hnd : (j :: l).Nodup := h.nodup_places.of_append_left
  have hmem : j ∈ l := by
    have htail : [j].Sublist (l.filter (started · ∉ log)) := List.Sublist.tail hsub
    exact List.mem_of_mem_filter (List.singleton_sublist.mp htail)
  exact (List.nodup_cons.mp hnd).1 hmem

/-- **First come, first started.**  When a job is started for the first time, those that
have arrived before it have been started. -/
theorem fifo (h : Delivery l b log) {l' : List (Event α)} (hl : l' ++ [started j] <+: log)
    (hj : started j ∉ l') (hij : [i, j].Sublist (arrivals l')) : started i ∈ l' := by
  classical
  induction h with
  | init => simp at hl
  | start h ih =>
      rcases List.prefix_concat_iff.mp hl with heq | hl
      · obtain ⟨rfl, hjk⟩ := List.append_inj' heq rfl
        cases hjk
        exact h.started_of_before hj hij
      · exact ih hl
  | enqueue _ _ ih | requeue _ ih | finish _ ih =>
      rcases List.prefix_concat_iff.mp hl with heq | hl
      · simp at heq
      · exact ih hl

/-- A job that was put back is at the front of the line until it is started again. -/
theorem head_of_awaiting (h : Delivery l b log) (hj : awaiting log = some j) :
    b = false ∧ l.head? = some j := by
  induction h with
  | init => cases hj
  | enqueue _ _ ih =>
      obtain ⟨hb, hl⟩ := ih (by simpa using hj)
      exact ⟨hb, by simp [hl]⟩
  | start => simp at hj
  | requeue => exact ⟨rfl, by simpa using hj⟩
  | finish _ ih => cases (ih (by simpa using hj)).1

/-- **A job that was put back is the next one started.** -/
theorem next (h : Delivery l b log) {l' : List (Event α)} (hl : l' ++ [started i] <+: log)
    (hj : awaiting l' = some j) : i = j := by
  induction h with
  | init => simp at hl
  | start h ih =>
      rcases List.prefix_concat_iff.mp hl with heq | hl
      · obtain ⟨rfl, hik⟩ := List.append_inj' heq rfl
        cases hik
        exact Option.some.inj (h.head_of_awaiting hj).2
      · exact ih hl
  | enqueue _ _ ih | requeue _ ih | finish _ ih =>
      rcases List.prefix_concat_iff.mp hl with heq | hl
      · simp at heq
      · exact ih hl

end Delivery

end Lib
