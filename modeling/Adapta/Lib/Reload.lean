import Adapta.Lib.Settled
import Adapta.Lib.Surrogates

/-!
# Values that come back

A value is read as it was written, in ASCII or not (`Stable`), if its keys are distinct and no two
surrogates in it make a pair.  What is written in ASCII can be encoded, whatever it is
(`encodable_dumps`).
-/

namespace Lib

variable {canon : FloatText → FloatText} {l : Fields}

/-- Writing the value and reading it again changes nothing. -/
def Stable (canon : FloatText → FloatText) (v : Json) : Prop :=
  ∀ ascii, reload canon ascii v = v

/-! ## Strings -/

theorem reloadStr_of_unpaired {s : Str} (hs : Unpaired s) (ascii : Bool) :
    reloadStr ascii s = s := by
  cases ascii with
  | false => exact reloadStr_false s
  | true => rw [reloadStr_true, mergePairs_eq_self hs]

/-! ## Texts in ASCII -/

@[simp] theorem encodable_append (s t : Str) :
    encodable (s ++ t) = (encodable s && encodable t) := List.all_append

@[simp] theorem encodable_char_cons (x : Char) (s : Str) :
    encodable (.char x :: s) = encodable s := by
  rw [encodable, List.all_cons, Bool.true_and]
  rfl

@[simp] theorem encodable_map_char (w : List Char) : encodable (w.map .char) = true := by
  simp [encodable]

@[simp] theorem encodable_str (s : String) : encodable (str s) = true := encodable_map_char _

@[simp] theorem encodable_escape (c : Code) : encodable (escape true c) = true := by
  cases c with
  | char x =>
      rw [escape]
      split
      · rfl
      split
      · rfl
      split
      · split
        · rfl
        · rfl
      · rfl
  | surrogate k =>
      have hk := k.isLt
      have hord : (Code.surrogate k).ord = 0xD800 + k := rfl
      have hshort : shortEscape (.surrogate k) = none := rfl
      rw [escape, hshort, hord]
      simp only
      rw [if_neg (by omega), if_pos (by simp; omega), if_pos (by omega)]
      rfl

@[simp] theorem encodable_quote (s : Str) : encodable (quote true s) = true := by
  have hbody : encodable (s.flatMap (escape true)) = true := by
    induction s with
    | nil => rfl
    | cons c s ih => rw [List.flatMap_cons, encodable_append, encodable_escape, ih]; rfl
  rw [quote, List.cons_append, encodable_char_cons, encodable_append, hbody]
  rfl

mutual

/-- With `ensure_ascii` no surrogate is written. -/
theorem encodable_dumps (v : Json) : encodable (dumps true v) = true := by
  cases v with
  | null => rfl
  | bool b => cases b <;> rfl
  | int n => exact encodable_map_char _
  | float x => exact encodable_map_char _
  | str s => exact encodable_quote s
  | arr l =>
      cases l with
      | nil => rfl
      | cons v l =>
          simp [dumps, encodable_dumps v, encodable_items l]
          rfl
  | obj l =>
      cases l with
      | nil => rfl
      | cons x l =>
          obtain ⟨k, v⟩ := x
          simp [dumps, encodable_dumps v, encodable_fields l]
          rfl

theorem encodable_items (l : List Json) : encodable (dumpsItems true l) = true := by
  cases l with
  | nil => rfl
  | cons v l => simp [dumpsItems, encodable_dumps v, encodable_items l]

theorem encodable_fields (l : List (Str × Json)) : encodable (dumpsFields true l) = true := by
  cases l with
  | nil => rfl
  | cons x l =>
      obtain ⟨k, v⟩ := x
      simp [dumpsFields, encodable_dumps v, encodable_fields l]

end

/-! ## Dictionaries -/

theorem reloadItems_of_stable {l : List Json} (h : ∀ v ∈ l, Stable canon v) (ascii : Bool) :
    reloadItems canon ascii l = l := by
  induction l with
  | nil => rfl
  | cons v l ih =>
      rw [reloadItems, h v List.mem_cons_self, ih fun w hw ↦ h w (List.mem_cons_of_mem _ hw)]

theorem reloadFields_of_unpaired (hk : ∀ x ∈ l, Unpaired x.1) (ascii : Bool) :
    reloadFields canon ascii l = l.map fun x ↦ (x.1, reload canon ascii x.2) := by
  induction l with
  | nil => rfl
  | cons x l ih =>
      rw [reloadFields, reloadStr_of_unpaired (hk x List.mem_cons_self),
        ih fun y hy ↦ hk y (List.mem_cons_of_mem _ hy), List.map_cons]

/-- What becomes of a `dict` becomes of each of its values. -/
theorem reload_obj (hnodup : (l.map Prod.fst).Nodup) (hk : ∀ x ∈ l, Unpaired x.1) (ascii : Bool) :
    reload canon ascii (.obj l) = .obj (l.map fun x ↦ (x.1, reload canon ascii x.2)) := by
  have hkeys : ((l.map fun x ↦ (x.1, reload canon ascii x.2)).map Prod.fst).Nodup := by
    rw [List.map_map]
    exact hnodup
  rw [reload, reloadFields_of_unpaired hk, ofPairs_eq_self hkeys]

theorem stable_str {s : Str} (hs : Unpaired s) : Stable canon (.str s) := by
  intro ascii
  rw [reload, reloadStr_of_unpaired hs]

theorem stable_arr {l : List Json} (h : ∀ v ∈ l, Stable canon v) : Stable canon (.arr l) := by
  intro ascii
  rw [reload, reloadItems_of_stable h]

end Lib
