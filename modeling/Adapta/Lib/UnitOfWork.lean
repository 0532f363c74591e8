/-!
# Objects of a database session

An object-relational session remembers, for each object, the values it last read or
wrote (`saved`) next to the values the program has assigned since (`now`).  A flush
writes the columns in which the two differ, and leaves the other columns of the row as
they are, even if another session has changed them in the meantime.  There is no version
check: the write does not look at the row.

`flushField` is the effect on one column; a table's row type lifts it field by field.
-/

universe u

namespace Lib

/-- A session object: the values last exchanged with the database, and the current ones. -/
structure Tracked (ρ : Type u) where
  saved : ρ
  now : ρ
deriving DecidableEq, Repr

namespace Tracked

variable {ρ : Type u}

/-- An object just read. -/
def load (r : ρ) : Tracked ρ := { saved := r, now := r }

/-- The program assigns attributes. -/
def assign (o : Tracked ρ) (f : ρ → ρ) : Tracked ρ := { o with now := f o.now }

/-- After a commit, with objects that do not expire on commit: nothing is read again. -/
def committed (o : Tracked ρ) : Tracked ρ := { saved := o.now, now := o.now }

end Tracked

variable {α : Type u} [DecidableEq α]

/-- The value of a column after a flush. -/
def flushField (saved now cur : α) : α := if now = saved then cur else now

@[simp] theorem flushField_same (v cur : α) : flushField v v cur = cur := if_pos rfl

/-- A column no other session has changed takes the object's value. -/
@[simp] theorem flushField_sync (saved now : α) : flushField saved now saved = now := by
  unfold flushField
  split
  · next h => exact h.symm
  · rfl

/-- A flush that was executed before changes nothing. -/
@[simp] theorem flushField_again (saved now : α) : flushField saved now now = now := ite_self now

/-- A column the session has changed takes its value. -/
theorem flushField_of_ne {saved now : α} (h : now ≠ saved) (cur : α) :
    flushField saved now cur = now := if_neg h

/-- A flush writes the object's value or nothing. -/
theorem flushField_eq_or (saved now cur : α) :
    flushField saved now cur = now ∨ (now = saved ∧ flushField saved now cur = cur) := by
  by_cases h : now = saved
  · exact .inr ⟨h, if_pos h⟩
  · exact .inl (if_neg h)

end Lib
