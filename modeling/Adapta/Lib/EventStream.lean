import Adapta.Lib.Text

/-!
# Event streams

A stream of server-sent events is a text: the lines `data: ...` up to an empty line are the data
of one event.  `EventReader` is the receiving end.  It takes the text one code point at a time,
with the three kinds of line ends, and dispatches an event at each empty line.

Data without line ends arrive as they were sent: of a stream that has come in up to some point,
exactly the events have been dispatched that have come in whole (`readEvents_of_prefix`).

Comments and the fields `event`, `id` and `retry` are skipped: the reader is about the data.
-/

namespace Lib

/-! ## Reading -/

structure EventReader where
  /-- What has come in of the current line. -/
  line : Str
  /-- The last line ended in `\r`: a `\n` that follows belongs to it. -/
  returned : Bool
  /-- The data lines since the last empty line. -/
  data : List Str
  /-- The data of the events so far. -/
  events : List Str
deriving DecidableEq, Repr

/-- The value of a line with the field `data`; one space after the colon does not count. -/
def dataField (line : Str) : Option Str :=
  match line with
  | .char 'd' :: .char 'a' :: .char 't' :: .char 'a' :: rest =>
      match rest with
      | [] => some []
      | .char ':' :: .char ' ' :: value => some value
      | .char ':' :: value => some value
      | _ => none
  | _ => none

namespace EventReader

variable {r : EventReader} {d s t p : Str} {l : List Str}

def start : EventReader := ⟨[], false, [], []⟩

/-- The end of a line; an empty one dispatches the event, if there are data. -/
def endLine (r : EventReader) : EventReader :=
  if r.line ≠ [] then { r with line := [], data := r.data ++ (dataField r.line).toList }
  else if r.data = [] then r
  else { r with data := [], events := r.events ++ [(r.data.intersperse (str "\n")).flatten] }

theorem endLine_data (hd : dataField r.line = some d) :
    r.endLine = { r with line := [], data := r.data ++ [d] } := by
  have hne : r.line ≠ [] := by
    intro hnil
    rw [hnil] at hd
    cases hd
  rw [endLine, if_pos hne, hd]
  rfl

def step (r : EventReader) (c : Code) : EventReader :=
  if c = .char '\n' then
    if r.returned then { r with returned := false } else r.endLine
  else if c = .char '\r' then { r.endLine with returned := true }
  else { r with line := r.line ++ [c], returned := false }

def run (r : EventReader) (s : Str) : EventReader := s.foldl step r

/-- A line ends in `\n`. -/
theorem run_newline (hr : r.returned = false) : r.run (str "\n") = r.endLine := by
  show r.step (.char '\n') = _
  rw [step, if_pos rfl, hr]
  rfl

theorem run_append (r : EventReader) (s t : Str) : r.run (s ++ t) = (r.run s).run t :=
  List.foldl_append

/-! ### What has been dispatched stays -/

theorem events_endLine (r : EventReader) : r.events <+: r.endLine.events := by
  rw [endLine]
  split
  · exact List.prefix_rfl
  split
  · exact List.prefix_rfl
  · exact List.prefix_append _ _

theorem events_step (r : EventReader) (c : Code) : r.events <+: (r.step c).events := by
  rw [step]
  split
  · split
    · exact List.prefix_rfl
    · exact events_endLine r
  split
  · exact events_endLine r
  · exact List.prefix_rfl

theorem events_run (r : EventReader) (s : Str) : r.events <+: (r.run s).events := by
  induction s generalizing r with
  | nil => exact List.prefix_rfl
  | cons c s ih => exact (events_step r c).trans (ih (r.step c))

/-- A text that dispatches nothing dispatches nothing on the way. -/
theorem events_of_prefix (hp : p <+: s) (hs : (r.run s).events = r.events) :
    (r.run p).events = r.events := by
  obtain ⟨t, rfl⟩ := hp
  rw [run_append] at hs
  have hback : (r.run p).events <+: r.events := hs ▸ events_run (r.run p) t
  exact hback.eq_of_length_le (events_run r p).length_le

end EventReader

/-- The data of the events in a text. -/
def readEvents (s : Str) : List Str := (EventReader.start.run s).events

/-! ## Writing -/

/-- An event with one line of data. -/
def eventText (d : Str) : Str := str "data: " ++ d ++ str "\n\n"

def eventStream (l : List Str) : Str := l.flatMap eventText

@[simp] theorem eventStream_nil : eventStream [] = [] := rfl

@[simp] theorem eventStream_cons (d : Str) (l : List Str) :
    eventStream (d :: l) = eventText d ++ eventStream l := List.flatMap_cons

namespace EventReader

variable {r : EventReader} {d s p : Str} {l : List Str}

/-- Between two events. -/
structure Idle (r : EventReader) : Prop where
  line : r.line = []
  returned : r.returned = false
  data : r.data = []

theorem idle_start : Idle start := ⟨rfl, rfl, rfl⟩

/-- Text without line ends is part of the line. -/
theorem run_inline (hs : Inline s) (hr : r.returned = false) :
    r.run s = { r with line := r.line ++ s } := by
  induction s generalizing r with
  | nil => rw [List.append_nil]; rfl
  | cons c s ih =>
      obtain ⟨hn, hcr⟩ := hs c List.mem_cons_self
      have hstep : r.step c = { r with line := r.line ++ [c], returned := false } := by
        rw [step, if_neg hn, if_neg hcr]
      rw [run, List.foldl_cons, hstep, ← run, ih (fun d hd ↦ hs d (List.mem_cons_of_mem _ hd)) rfl]
      simp [hr]

theorem inline_data (hd : Inline d) : Inline (str "data: " ++ d) := by
  have hname : ∀ c ∈ str "data: ", c ≠ .char '\n' ∧ c ≠ .char '\r' := by decide
  intro c hc
  rcases List.mem_append.mp hc with hc | hc
  · exact hname c hc
  · exact hd c hc

/-- An event of which the empty line is missing. -/
theorem run_unfinished (hi : Idle r) (hd : Inline d) :
    r.run (str "data: " ++ d ++ str "\n") = { r with data := [d] } := by
  have hfield : dataField (r.line ++ (str "data: " ++ d)) = some d := by
    rw [hi.line]
    rfl
  rw [run_append, run_inline (inline_data hd) hi.returned, run_newline, endLine_data hfield]
  · simp [hi.line, hi.data]
  · exact hi.returned

/-- An event is dispatched at its end. -/
theorem run_event (hi : Idle r) (hd : Inline d) :
    r.run (eventText d) = { r with events := r.events ++ [d] } := by
  have hevent : eventText d = str "data: " ++ d ++ str "\n" ++ str "\n" := by
    simp [eventText, str]
  rw [hevent, run_append, run_unfinished hi hd, run_newline, endLine]
  · simp [hi.line, hi.data]
  · exact hi.returned

theorem idle_run_event (hi : Idle r) (hd : Inline d) : Idle (r.run (eventText d)) := by
  rw [run_event hi hd]
  exact ⟨hi.line, hi.returned, hi.data⟩

/-- Nothing is dispatched before the end. -/
theorem events_unfinished (hi : Idle r) (hd : Inline d) (hp : p <+: eventText d)
    (hne : p ≠ eventText d) : (r.run p).events = r.events := by
  have hevent : eventText d = (str "data: " ++ d ++ str "\n") ++ [.char '\n'] := by
    simp [eventText, str]
  rw [hevent] at hp hne
  have hshort : p <+: str "data: " ++ d ++ str "\n" :=
    (List.prefix_concat_iff.mp hp).resolve_left hne
  apply events_of_prefix hshort
  rw [run_unfinished hi hd]

/-- The events that have come in whole, and what has come in of the next one. -/
theorem run_prefix (hi : Idle r) (hl : ∀ d ∈ l, Inline d) (hp : p <+: eventStream l) :
    ∃ n ≤ l.length, (r.run p).events = r.events ++ l.take n ∧ eventStream (l.take n) <+: p ∧
      (n < l.length → p.length < (eventStream (l.take (n + 1))).length) := by
  induction l generalizing r p with
  | nil =>
      rw [eventStream_nil, List.prefix_nil] at hp
      subst hp
      exact ⟨0, Nat.le_refl 0, (List.append_nil _).symm, List.prefix_rfl, fun h ↦ absurd h (by simp)⟩
  | cons d l ih =>
      have hd := hl d List.mem_cons_self
      rw [eventStream_cons] at hp
      by_cases hwhole : eventText d <+: p
      · obtain ⟨q, rfl⟩ := hwhole
        obtain ⟨n, hn, hread, hpre, hlt⟩ := ih (idle_run_event hi hd)
          (fun e he ↦ hl e (List.mem_cons_of_mem _ he)) ((List.prefix_append_right_inj _).mp hp)
        refine ⟨n + 1, Nat.succ_le_succ hn, ?_, ?_, ?_⟩
        · rw [run_append, hread, run_event hi hd, List.take_succ_cons, List.append_assoc]
          rfl
        · rw [List.take_succ_cons, eventStream_cons]
          exact (List.prefix_append_right_inj _).mpr hpre
        · intro hlen
          have hrest := hlt (Nat.lt_of_succ_lt_succ hlen)
          rw [List.take_succ_cons, eventStream_cons, List.length_append, List.length_append]
          omega
      · -- the first event has not come in whole
        have hpart : p <+: eventText d :=
          (List.prefix_or_prefix_of_prefix hp (List.prefix_append _ _)).resolve_right hwhole
        have hne : p ≠ eventText d := by
          rintro rfl
          exact hwhole List.prefix_rfl
        refine ⟨0, Nat.zero_le _, ?_, List.nil_prefix, ?_⟩
        · rw [events_unfinished hi hd hpart hne, List.take_zero, List.append_nil]
        · intro _
          have hlen : p.length ≠ (eventText d).length := by
            intro heq
            exact hne (hpart.eq_of_length heq)
          have hle := hpart.length_le
          rw [List.take_succ_cons, List.take_zero, eventStream_cons, eventStream_nil,
            List.append_nil]
          omega

end EventReader

variable {l : List Str} {p : Str}

/-- Of a stream that has come in up to some point, the events have been dispatched that have come
in whole. -/
theorem readEvents_of_prefix (hl : ∀ d ∈ l, Inline d) (hp : p <+: eventStream l) :
    ∃ n ≤ l.length, readEvents p = l.take n ∧ eventStream (l.take n) <+: p ∧
      (n < l.length → p.length < (eventStream (l.take (n + 1))).length) :=
  EventReader.run_prefix EventReader.idle_start hl hp

end Lib
