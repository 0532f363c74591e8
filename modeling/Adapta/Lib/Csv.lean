import Mathlib.Data.List.Induction
import Adapta.Lib.Text

/-!
# CSV

Python's `csv` module with the dialect `excel` and `\n` at the end of each row, over strings
of code points: the writer, which quotes only where it must, and the reader as the automaton
that it is in C.  The writer is that of CPython from 3.11.9 on, which quotes a field with a `\r`
too, whatever the row ends in.  The reader sees the text line by line; after each line it is
told that the line has ended.

The reader's limit on the size of a field is left out.
-/

namespace Lib.Csv

open Lib

/-! ## The writer -/

def delimiter : Code := .char ','

def quotechar : Code := .char '"'

def newline : Code := .char '\n'

def carriage : Code := .char '\r'

/-- The field has a character that must be quoted. -/
def special (c : Code) : Bool := c = delimiter || c = quotechar || c = newline || c = carriage

/-- A quote inside of quotes is doubled. -/
def double (c : Code) : Str := if c = quotechar then [quotechar, quotechar] else [c]

def quoted (s : Str) : Str := quotechar :: s.flatMap double ++ [quotechar]

def writeField (s : Str) : Str := if s.any special then quoted s else s

/-- The fields after the first. -/
def writeRest (row : List Str) : Str := row.flatMap fun s ↦ delimiter :: writeField s

/-- `writerow`.  A single empty field is quoted. -/
def writeRow : List Str → Str
  | [] => [newline]
  | [[]] => quoted [] ++ [newline]
  | s :: row => writeField s ++ writeRest row ++ [newline]

/-- The rows in their order. -/
def write (rows : List (List Str)) : Str := rows.flatMap writeRow

/-! ## The reader -/

inductive Phase where
  | startRecord
  | startField
  | inField
  | inQuoted
  | quoteInQuoted
  | eatCrnl
deriving DecidableEq, Repr

/-- The rows that are complete, the fields of this row, and this field so far. -/
structure Reader where
  phase : Phase
  field : Str
  fields : List Str
  rows : List (List Str)

namespace Reader

variable (r : Reader)

/-- `parse_save_field`. -/
def save (phase : Phase) : Reader :=
  { r with phase := phase, field := [], fields := r.fields ++ [r.field] }

/-- `parse_add_char`. -/
def add (phase : Phase) (c : Code) : Reader := { r with phase := phase, field := r.field ++ [c] }

/-- The start of a field, also of the first. -/
def stepStart (c : Code) : Reader :=
  if c = newline ∨ c = carriage then r.save .eatCrnl
  else if c = quotechar then { r with phase := .inQuoted }
  else if c = delimiter then r.save .startField
  else r.add .inField c

/-- `parse_process_char`; `none` if it raises. -/
def stepChar (c : Code) : Option Reader :=
  match r.phase with
  | .startRecord =>
      if c = newline ∨ c = carriage then some { r with phase := .eatCrnl }
      else some (r.stepStart c)
  | .startField => some (r.stepStart c)
  | .inField =>
      if c = newline ∨ c = carriage then some (r.save .eatCrnl)
      else if c = delimiter then some (r.save .startField)
      else some (r.add .inField c)
  | .inQuoted =>
      if c = quotechar then some { r with phase := .quoteInQuoted } else some (r.add .inQuoted c)
  | .quoteInQuoted =>
      if c = quotechar then some (r.add .inQuoted c)
      else if c = delimiter then some (r.save .startField)
      else if c = newline ∨ c = carriage then some (r.save .eatCrnl)
      else some (r.add .inField c)
  | .eatCrnl => if c = newline ∨ c = carriage then some r else none

/-- The row is complete. -/
def emit : Reader := ⟨.startRecord, [], [], r.rows ++ [r.fields]⟩

/-- The same at the end of a line. -/
def stepEol : Reader :=
  match r.phase with
  | .startRecord | .eatCrnl => r.emit
  | .startField | .inField | .quoteInQuoted => (r.save .startRecord).emit
  | .inQuoted => r

/-- A character of the text; a line ends with its `\n`. -/
def step (c : Code) : Option Reader :=
  (r.stepChar c).map fun r' ↦ if c = newline then r'.stepEol else r'

/-- The end of the text: of a line that has no `\n`, and of a field that is still open. -/
def finish (unended : Bool) : List (List Str) :=
  let r' := if unended then r.stepEol else r
  if r'.phase = .startRecord then r'.rows else (r'.save .startRecord).emit.rows

end Reader

/-- `list(csv.reader(io.StringIO(text)))`, or `none` if it raises. -/
def read (text : Str) : Option (List (List Str)) :=
  (text.foldlM Reader.step ⟨.startRecord, [], [], []⟩).map fun r ↦
    r.finish (text.getLast?.any (· ≠ newline))

/-! ## Reading what was written -/

namespace Reader

variable {r : Reader} {c : Code} {s : Str}

/-- A separator would end the field here. -/
def Ready (r : Reader) : Prop := r.phase ≠ .inQuoted ∧ r.phase ≠ .eatCrnl

theorem step_of_ne (hc : c ≠ newline) : r.step c = r.stepChar c := by
  rw [step]
  cases r.stepChar c with
  | none => rfl
  | some r' => simp [hc]

theorem step_delimiter (hr : r.Ready) : r.step delimiter = some (r.save .startField) := by
  obtain ⟨phase, field, fields, rows⟩ := r
  rw [step_of_ne (by decide)]
  cases phase with
  | inQuoted => exact absurd rfl hr.1
  | eatCrnl => exact absurd rfl hr.2
  | startRecord => rfl
  | startField => rfl
  | inField => rfl
  | quoteInQuoted => rfl

theorem step_newline (hr : r.Ready) (hstart : r.phase ≠ .startRecord) :
    r.step newline = some ⟨.startRecord, [], [], r.rows ++ [r.fields ++ [r.field]]⟩ := by
  obtain ⟨phase, field, fields, rows⟩ := r
  cases phase with
  | inQuoted => exact absurd rfl hr.1
  | eatCrnl => exact absurd rfl hr.2
  | startRecord => exact absurd rfl hstart
  | startField => rfl
  | inField => rfl
  | quoteInQuoted => rfl

/-- A character that needs no quotes. -/
theorem step_plain (hc : special c = false) (hr : r.Ready) (hquote : r.phase ≠ .quoteInQuoted) :
    r.step c = some (r.add .inField c) := by
  obtain ⟨phase, field, fields, rows⟩ := r
  simp only [special, Bool.or_eq_false_iff, decide_eq_false_iff_not] at hc
  obtain ⟨⟨⟨hdelimiter, hquotechar⟩, hnewline⟩, hcarriage⟩ := hc
  rw [step_of_ne hnewline]
  cases phase with
  | inQuoted => exact absurd rfl hr.1
  | eatCrnl => exact absurd rfl hr.2
  | quoteInQuoted => exact absurd rfl hquote
  | startRecord => simp [stepChar, stepStart, hdelimiter, hquotechar, hnewline, hcarriage, add]
  | startField => simp [stepChar, stepStart, hdelimiter, hquotechar, hnewline, hcarriage, add]
  | inField => simp [stepChar, hdelimiter, hnewline, hcarriage, add]

/-- Between quotes everything is added, a doubled quote once. -/
theorem run_double (hr : r.phase = .inQuoted) :
    (s.flatMap double).foldlM step r = some { r with field := r.field ++ s } := by
  obtain ⟨phase, field, fields, rows⟩ := r
  obtain rfl : phase = .inQuoted := hr
  induction s generalizing field with
  | nil => simp
  | cons c s ih =>
      rw [List.flatMap_cons, List.foldlM_append]
      have hchar : (double c).foldlM step ⟨.inQuoted, field, fields, rows⟩ =
          some ⟨.inQuoted, field ++ [c], fields, rows⟩ := by
        by_cases hq : c = quotechar
        · subst hq
          rfl
        · have hdouble : double c = [c] := if_neg hq
          have hadd : (⟨.inQuoted, field, fields, rows⟩ : Reader).stepChar c =
              some ⟨.inQuoted, field ++ [c], fields, rows⟩ := if_neg hq
          rw [hdouble, List.foldlM_cons, step, hadd]
          by_cases hn : c = newline
          · simp [hn, stepEol]
          · simp [hn]
      rw [hchar]
      refine (ih (field ++ [c])).trans ?_
      simp

/-- Characters that need no quotes. -/
theorem run_plain (hs : ∀ c ∈ s, special c = false) (hfield : r.field = [])
    (hr : r.phase = .startRecord ∨ r.phase = .startField) :
    s.foldlM step r = some ⟨if s = [] then r.phase else .inField, s, r.fields, r.rows⟩ := by
  obtain ⟨phase, field, fields, rows⟩ := r
  obtain rfl : field = [] := hfield
  induction s using List.reverseRecOn with
  | nil => rfl
  | append_singleton s c ih =>
      have hc := hs c (by simp)
      rw [List.foldlM_append, ih fun d hd ↦ hs d (List.mem_append_left _ hd)]
      have hphase : ∀ p, (p = phase ∨ p = .inField) →
          (⟨p, s, fields, rows⟩ : Reader).step c = some ⟨.inField, s ++ [c], fields, rows⟩ := by
        intro p hp
        apply step_plain hc
        · rcases hp with rfl | rfl
          · rcases hr with rfl | rfl
            · exact ⟨nofun, nofun⟩
            · exact ⟨nofun, nofun⟩
          · exact ⟨nofun, nofun⟩
        · rcases hp with rfl | rfl
          · rcases hr with rfl | rfl
            · exact nofun
            · exact nofun
          · exact nofun
      have hne : s ++ [c] ≠ [] := by simp
      rw [if_neg hne]
      show ([c] : Str).foldlM step ⟨if s = [] then phase else .inField, s, fields, rows⟩ = _
      rw [List.foldlM_cons, hphase]
      · rfl
      · split
        · exact .inl rfl
        · exact .inr rfl

/-- A written field leaves the reader where a separator ends it. -/
theorem run_writeField (s : Str) (hfield : r.field = [])
    (hr : r.phase = .startRecord ∨ r.phase = .startField) :
    ∃ phase, (writeField s).foldlM step r = some ⟨phase, s, r.fields, r.rows⟩ ∧
      phase ≠ .inQuoted ∧ phase ≠ .eatCrnl ∧
      (phase = .startRecord → r.phase = .startRecord ∧ s = []) := by
  rw [writeField]
  by_cases hs : s.any special
  · rw [if_pos hs]
    obtain ⟨phase, field, fields, rows⟩ := r
    obtain rfl : field = [] := hfield
    refine ⟨.quoteInQuoted, ?_, nofun, nofun, nofun⟩
    have hopen : (⟨phase, [], fields, rows⟩ : Reader).step quotechar =
        some ⟨.inQuoted, [], fields, rows⟩ := by
      rcases hr with rfl | rfl
      · rfl
      · rfl
    rw [quoted, List.cons_append, List.foldlM_cons, hopen]
    show (s.flatMap double ++ [quotechar]).foldlM step ⟨.inQuoted, [], fields, rows⟩ = _
    rw [List.foldlM_append, run_double rfl]
    rfl
  · rw [if_neg hs]
    refine ⟨_, run_plain (by simpa using hs) hfield hr, ?_⟩
    by_cases hnil : s = []
    · rw [if_pos hnil]
      rcases hr with hphase | hphase
      · rw [hphase]
        exact ⟨nofun, nofun, fun _ ↦ ⟨rfl, hnil⟩⟩
      · rw [hphase]
        exact ⟨nofun, nofun, nofun⟩
    · rw [if_neg hnil]
      exact ⟨nofun, nofun, nofun⟩

/-- The rest of a row, after a field. -/
theorem run_writeRest (row : List Str) (hr : r.Ready)
    (hstart : r.phase = .startRecord → row ≠ []) :
    (writeRest row ++ [newline]).foldlM step r =
      some ⟨.startRecord, [], [], r.rows ++ [r.fields ++ r.field :: row]⟩ := by
  induction row generalizing r with
  | nil =>
      have hnot : r.phase ≠ .startRecord := fun h ↦ hstart h rfl
      show ([newline] : Str).foldlM step r = _
      rw [List.foldlM_cons, step_newline hr hnot]
      rfl
  | cons s row ih =>
      obtain ⟨phase, hrun, hquoted, hcrnl, hfirst⟩ :=
        run_writeField (r := r.save .startField) s rfl (.inr rfl)
      have hsplit : writeRest (s :: row) ++ [newline] =
          delimiter :: (writeField s ++ (writeRest row ++ [newline])) := by
        simp [writeRest]
      rw [hsplit, List.foldlM_cons, step_delimiter hr]
      show (writeField s ++ (writeRest row ++ [newline])).foldlM step (r.save .startField) = _
      rw [List.foldlM_append, hrun]
      refine (ih ⟨hquoted, hcrnl⟩ fun h ↦ ?_).trans ?_
      · cases (hfirst h).1
      · simp [save]

/-- A written row is read. -/
theorem run_writeRow (row : List Str) (rows : List (List Str)) :
    (writeRow row).foldlM step ⟨.startRecord, [], [], rows⟩ =
      some ⟨.startRecord, [], [], rows ++ [row]⟩ := by
  match row with
  | [] => rfl
  | [[]] => rfl
  | (c :: s) :: row =>
      obtain ⟨phase, hrun, hquoted, hcrnl, hfirst⟩ :=
        run_writeField (r := ⟨.startRecord, [], [], rows⟩) (c :: s) rfl (.inl rfl)
      rw [writeRow, List.append_assoc, List.foldlM_append, hrun]
      · refine (run_writeRest row ⟨hquoted, hcrnl⟩ fun h ↦ ?_).trans rfl
        cases (hfirst h).2
      · intro h
        cases h
  | [] :: s :: row =>
      obtain ⟨phase, hrun, hquoted, hcrnl, hfirst⟩ :=
        run_writeField (r := ⟨.startRecord, [], [], rows⟩) [] rfl (.inl rfl)
      rw [writeRow, List.append_assoc, List.foldlM_append, hrun]
      · exact (run_writeRest (s :: row) ⟨hquoted, hcrnl⟩ fun _ ↦ List.cons_ne_nil _ _).trans rfl
      · intro _ h
        cases h

end Reader

open Reader

theorem getLast?_writeRow (row : List Str) : (writeRow row).getLast? = some newline := by
  match row with
  | [] => rfl
  | [[]] => rfl
  | (c :: s) :: row => simp [writeRow]
  | [] :: s :: row => simp [writeRow]

/-- Whatever is written is read back. -/
theorem read_write (rows : List (List Str)) : read (write rows) = some rows := by
  have hrun : ∀ done, (write rows).foldlM step ⟨.startRecord, [], [], done⟩ =
      some ⟨.startRecord, [], [], done ++ rows⟩ := by
    induction rows with
    | nil =>
        intro done
        simp [write]
    | cons row rows ih =>
        intro done
        rw [write, List.flatMap_cons, List.foldlM_append, run_writeRow]
        refine (ih (done ++ [row])).trans ?_
        simp
  have hlast : (write rows).getLast?.any (· ≠ newline) = false := by
    cases rows using List.reverseRecOn with
    | nil => rfl
    | append_singleton rows row =>
        rw [write, List.flatMap_append, List.flatMap_singleton, List.getLast?_append,
          getLast?_writeRow]
        rfl
  rw [read, hrun, hlast]
  rfl

end Lib.Csv
