import Adapta.Extraction.Fences
import Adapta.Extraction.Schema

/-!
# The fields of a reply

`parse_fields` of `adapta/services/extraction.py` finds the JSON object in the reply of a
vision model, among prose and code fences, and keeps of it the values of the schema's keys.
This module says for which objects the reading undoes the writing.
-/

namespace Adapta.Extraction

open Lib
open Datasets (dropFences)

/-! ## The source -/

/-- The value of an extracted field. -/
inductive Scalar where
  | str (s : Str)
  | int (n : Int)
  | float (x : FloatText)
  | bool (b : Bool)
deriving DecidableEq

/-- The text from the first opening to the last closing brace, if there is one. -/
def objectText (s : Str) : Option Str :=
  match (s.dropWhile (· ≠ .char '\x7b')).rdropWhile (· ≠ .char '\x7d') with
  | [] => none
  | t => some t

/-- `_ABSENT`. -/
def absent : List Str := [str "null", str "none"]

/-- `str.lower` of the letters `A` to `Z`; no other character has one of the letters of
`absent` in its lower case. -/
def lowerAscii (s : Str) : Str :=
  s.map fun
    | .char c => .char c.toLower
    | .surrogate n => .surrogate n

/-- The body of the loop of `parse_fields`. -/
def keepScalar : Json → Option Scalar
  | .str s =>
      let value := strip (collapse s)
      if lowerAscii value ∈ absent then none
      else if value = [] then none
      else some (.str value)
  | .int n => some (.int n)
  | .float x => some (.float x)
  | .bool b => some (.bool b)
  | _ => none

/-- `parse_fields`. -/
def parseFields (canon : FloatText → FloatText) (raw : Option Str) (schema : Fields) :
    Option (List (Str × Scalar)) :=
  match objectText (strip (dropFences (raw.getD []))) with
  | none => none
  | some t =>
      match loads canon t with
      | some (.obj data) =>
          let out := (schemaKeys schema).filterMap fun k ↦
            ((getField data k).bind keepScalar).map fun v ↦ (k, v)
          if out.isEmpty then none else some out
      | _ => none

/-! ## Assignments -/

/-- A string, an integer or a boolean. -/
def Plain : Json → Prop
  | .str _ | .int _ | .bool _ => True
  | _ => False

/-- A `dict` of strings, integers and booleans for keys of the schema. -/
structure Assignment (schema : Fields) where
  fields : Fields
  nodup : (fields.map Prod.fst).Nodup
  mem_keys : ∀ x ∈ fields, x.1 ∈ schemaKeys schema
  plain : ∀ x ∈ fields, Plain x.2

/-- The same with its strings normalised, without those that are empty, `null` or `none`. -/
def kept (fields : Fields) : List (Str × Scalar) :=
  fields.filterMap fun x ↦ (keepScalar x.2).map fun v ↦ (x.1, v)

/-- The reply with the assignment's JSON between two texts is read as what is kept of the
assignment, as a `dict`, or as `None` if that is nothing. -/
def Undone (canon : FloatText → FloatText) {schema : Fields} (d : Assignment schema)
    (before after : Str) : Prop :=
  match parseFields canon (some (before ++ dumps true (.obj d.fields) ++ after)) schema with
  | none => kept d.fields = []
  | some out => out ≠ [] ∧ ∀ k, out.lookup k = (kept d.fields).lookup k

/-! ## What comes through -/

/-- The string has no fence in it, and no two surrogates that make a pair. -/
def Whole (s : Str) : Prop := ¬ fence <:+: s ∧ Unpaired s

/-- What is left of a string: its fences are removed, and its pairs are merged. -/
def mangle (s : Str) : Str := reloadStr true (dropFences s)

theorem mangle_of_whole {s : Str} (hs : Whole s) : mangle s = s := by
  rw [mangle, reloadStr_true, dropFences_of_not_infix hs.1, mergePairs_eq_self hs.2]

theorem whole_mangle (s : Str) : Whole (mangle s) := by
  rw [mangle, reloadStr_true]
  constructor
  · intro h
    have hord : ∀ c ∈ fence, c.ord < 0x10000 := by decide
    exact fence_not_infix_dropFences s (isInfix_of_mergePairs hord h)
  · exact unpaired_mergePairs _

/-- Normalising the white space changes nothing about that. -/
theorem whole_strip_collapse (s : Str) : Whole (strip (collapse s)) ↔ Whole s := by
  have hword : ∀ c d : Code, ∀ m : Str, (∀ e ∈ c :: (m ++ [d]), isSpace e = false) →
      (c :: (m ++ [d]) <:+: strip (collapse s) ↔ c :: (m ++ [d]) <:+: s) := by
    intro c d m h
    rw [isInfix_strip (h c List.mem_cons_self) (h d (by simp)),
      isInfix_collapse h (List.cons_ne_nil _ _)]
  have hfence : fence <:+: strip (collapse s) ↔ fence <:+: s :=
    hword (.char '\x60') (.char '\x60') [.char '\x60'] (by decide)
  have hpair : ∀ h l : Fin 0x800, [Code.surrogate h, .surrogate l] <:+: strip (collapse s) ↔
      [Code.surrogate h, .surrogate l] <:+: s := by
    intro h l
    refine hword (.surrogate h) (.surrogate l) [] fun e he ↦ ?_
    have hspace : ∀ n : Fin 0x800, isSpace (.surrogate n) = false := by
      intro n
      have hord : 0xD800 ≤ (Code.surrogate n).ord := Nat.le_add_right _ _
      simp [isSpace]
      omega
    rcases List.mem_cons.mp he with rfl | he
    · exact hspace h
    · rw [List.mem_singleton.mp he]
      exact hspace l
  rw [Whole, Whole, hfence]
  refine and_congr_right fun _ ↦ ?_
  exact forall_congr' fun h ↦ forall_congr' fun l ↦ by rw [hpair]

/-- A value that is dropped has nothing to lose. -/
theorem whole_of_keepScalar {s : Str} (h : keepScalar (.str s) = none) : Whole s := by
  rw [← whole_strip_collapse]
  have hword : lowerAscii (strip (collapse s)) ∈ absent ∨ strip (collapse s) = [] := by
    by_contra hnot
    rw [not_or] at hnot
    simp only [keepScalar, if_neg hnot.1, if_neg hnot.2] at h
    cases h
  have hletter : ∀ c ∈ lowerAscii (strip (collapse s)), ∃ x, c = .char x ∧ x ≠ '\x60' := by
    have hall : ∀ t ∈ absent, ∀ c ∈ t, ∃ x, c = .char x ∧ x ≠ '\x60' := by
      simp [absent, str]
    rcases hword with hword | hnil
    · exact hall _ hword
    · rw [hnil]
      simp [lowerAscii]
  constructor
  · rintro ⟨a, b, hab⟩
    obtain ⟨x, hx, hne⟩ := hletter (.char '\x60') (List.mem_map.mpr
      ⟨.char '\x60', by rw [← hab]; simp [fence], rfl⟩)
    cases hx
    exact hne rfl
  · rintro h l - - ⟨a, b, hab⟩
    obtain ⟨x, hx, -⟩ := hletter (.surrogate h) (List.mem_map.mpr
      ⟨.surrogate h, by rw [← hab]; simp, rfl⟩)
    cases hx

/-! ## Through the reply -/

/-- A value without its fences. -/
def unfenceValue : Json → Json
  | .str s => .str (dropFences s)
  | v => v

/-- What is left of a value. -/
def mangleValue : Json → Json
  | .str s => .str (mangle s)
  | v => v

theorem dropFences_dumps {v : Json} (hv : Plain v) (t : Str) :
    dropFences (dumps true v ++ t) = dumps true (unfenceValue v) ++ dropFences t := by
  cases v with
  | str s => exact dropFences_quote s t
  | int n =>
      refine dropFences_append_left ?_ t
      intro hmem
      obtain ⟨c, hc, heq⟩ := List.mem_map.mp hmem
      have hword := List.all_eq_true.mp (isWord_intText n) c hc
      cases heq
      revert hword
      decide
  | bool b =>
      refine dropFences_append_left ?_ t
      cases b <;> decide
  | null => cases hv
  | float x => cases hv
  | arr l => cases hv
  | obj l => cases hv

theorem dropFences_dumpsFields {l : Fields} (hl : ∀ x ∈ l, Plain x.2) (t : Str) :
    dropFences (dumpsFields true l ++ t) =
      dumpsFields true (l.map fun x ↦ (dropFences x.1, unfenceValue x.2)) ++ dropFences t := by
  induction l with
  | nil => rfl
  | cons x l ih =>
      obtain ⟨k, v⟩ := x
      have hcomma : ∀ u, dropFences (str ", " ++ u) = str ", " ++ dropFences u :=
        dropFences_append_left (by decide)
      have hcolon : ∀ u, dropFences (str ": " ++ u) = str ": " ++ dropFences u :=
        dropFences_append_left (by decide)
      simp only [List.map_cons, dumpsFields, List.append_assoc]
      rw [hcomma, dropFences_quote, hcolon, dropFences_dumps (hl _ List.mem_cons_self),
        ih fun y hy ↦ hl y (List.mem_cons_of_mem _ hy)]

/-- What stands between the braces of an object. -/
def insideText : Fields → Str
  | [] => []
  | (k, v) :: l => quote true k ++ str ": " ++ dumps true v ++ dumpsFields true l

theorem dumps_obj (l : Fields) :
    dumps true (.obj l) = .char '\x7b' :: (insideText l ++ [.char '\x7d']) := by
  cases l with
  | nil => rfl
  | cons x l => rfl

theorem dropFences_insideText {l : Fields} (hl : ∀ x ∈ l, Plain x.2) :
    dropFences (insideText l) =
      insideText (l.map fun x ↦ (dropFences x.1, unfenceValue x.2)) := by
  cases l with
  | nil => rfl
  | cons x l =>
      obtain ⟨k, v⟩ := x
      have hcolon : ∀ u, dropFences (str ": " ++ u) = str ": " ++ dropFences u :=
        dropFences_append_left (by decide)
      have hrest := dropFences_dumpsFields (fun y hy ↦ hl y (List.mem_cons_of_mem _ hy)) []
      rw [List.append_nil, dropFences_nil, List.append_nil] at hrest
      simp only [List.map_cons, insideText, List.append_assoc]
      rw [dropFences_quote, hcolon, dropFences_dumps (hl _ List.mem_cons_self), hrest]

/-- The fences around the object are removed with the ones in its strings. -/
theorem dropFences_dumps_obj {l : Fields} (hl : ∀ x ∈ l, Plain x.2) (before after : Str) :
    dropFences (before ++ dumps true (.obj l) ++ after) =
      dropFences before ++
        dumps true (.obj (l.map fun x ↦ (dropFences x.1, unfenceValue x.2))) ++
          dropFences after := by
  have hopen : ¬ FenceChar (.char '\x7b') := by decide
  have hclose : ¬ FenceChar (.char '\x7d') := by decide
  have hfront := dropFences_append_cons hopen before (insideText l ++ .char '\x7d' :: after)
  have hback := dropFences_append_cons hclose (insideText l) after
  rw [dumps_obj, dumps_obj, ← dropFences_insideText hl]
  simp only [List.append_assoc, List.cons_append, List.nil_append]
  rw [hfront, hback]

/-- The braces of the object are found between two texts without such braces. -/
theorem objectText_strip {x y : Str} (hx : .char '\x7b' ∉ x) (hy : .char '\x7d' ∉ y) (l : Fields) :
    objectText (strip (x ++ dumps true (.obj l) ++ y)) = some (dumps true (.obj l)) := by
  have hx' : .char '\x7b' ∉ x.dropWhile isSpace :=
    fun h ↦ hx ((List.dropWhile_sublist _).subset h)
  have hy' : .char '\x7d' ∉ y.rdropWhile isSpace :=
    fun h ↦ hy ((List.rdropWhile_prefix _ _).subset h)
  have hstrip := strip_around (c := .char '\x7b') (d := .char '\x7d') rfl rfl x (insideText l) y
  have htext : x ++ dumps true (.obj l) ++ y =
      x ++ .char '\x7b' :: (insideText l ++ .char '\x7d' :: y) := by
    rw [dumps_obj]
    simp
  have hfront : ∀ t : Str, (x.dropWhile isSpace ++ .char '\x7b' :: t).dropWhile
      (· ≠ .char '\x7b') = .char '\x7b' :: t := by
    intro t
    have hinside : ∀ c ∈ x.dropWhile isSpace, decide (c ≠ .char '\x7b') = true := by
      intro c hc
      rw [decide_eq_true_eq]
      rintro rfl
      exact hx' hc
    rw [List.dropWhile_append_of_pos hinside]
    exact List.dropWhile_cons_of_neg (by simp)
  have hback : ∀ t : Str, (t ++ .char '\x7d' :: y.rdropWhile isSpace).rdropWhile
      (· ≠ .char '\x7d') = t ++ [.char '\x7d'] := by
    intro t
    have hrev : (t ++ .char '\x7d' :: y.rdropWhile isSpace).reverse =
        (y.rdropWhile isSpace).reverse ++ .char '\x7d' :: t.reverse := by simp
    have hinside : ∀ c ∈ (y.rdropWhile isSpace).reverse,
        decide (c ≠ .char '\x7d') = true := by
      intro c hc
      rw [decide_eq_true_eq]
      rintro rfl
      exact hy' (List.mem_reverse.mp hc)
    rw [List.rdropWhile, hrev, List.dropWhile_append_of_pos hinside,
      List.dropWhile_cons_of_neg (by simp)]
    simp
  rw [htext, hstrip, objectText, hfront, ← List.cons_append, hback, dumps_obj]
  rfl

theorem reloadFields_eq (canon : FloatText → FloatText) {l : Fields} (hl : ∀ x ∈ l, Plain x.2) :
    reloadFields canon true (l.map fun x ↦ (dropFences x.1, unfenceValue x.2)) =
      l.map fun x ↦ (mangle x.1, mangleValue x.2) := by
  induction l with
  | nil => rfl
  | cons x l ih =>
      obtain ⟨k, v⟩ := x
      have hv := hl _ List.mem_cons_self
      rw [List.map_cons, List.map_cons, reloadFields,
        ih fun y hy ↦ hl y (List.mem_cons_of_mem _ hy)]
      cases v with
      | str s => rfl
      | int n => rfl
      | bool b => rfl
      | null => cases hv
      | float x => cases hv
      | arr l => cases hv
      | obj l => cases hv

/-- The `dict` that is read of the reply. -/
def readBack (l : Fields) : Fields := ofPairs (l.map fun x ↦ (mangle x.1, mangleValue x.2))

theorem loads_reply (canon : FloatText → FloatText) {l : Fields} (hl : ∀ x ∈ l, Plain x.2)
    {before after : Str} (hb : .char '\x7b' ∉ before) (ha : .char '\x7d' ∉ after) :
    (objectText (strip (dropFences (before ++ dumps true (.obj l) ++ after)))).bind (loads canon) =
      some (.obj (readBack l)) := by
  rw [dropFences_dumps_obj hl, objectText_strip (fun h ↦ hb (mem_of_mem_dropFences h))
    fun h ↦ ha (mem_of_mem_dropFences h), Option.bind_some, loads_dumps, reload,
    reloadFields_eq canon hl]
  rfl

/-! ## Which objects come through -/

/-- A string value is whole; a number or a boolean always is. -/
def WholeValue : Json → Prop
  | .str s => Whole s
  | _ => True

/-- Each entry that is kept is whole, and no later key becomes its key. -/
def ComesThrough (d : Fields) : Prop :=
  ∀ front k v back, d = front ++ (k, v) :: back → keepScalar v ≠ none →
    Whole k ∧ WholeValue v ∧ ∀ x ∈ back, mangle x.1 ≠ k

theorem mangleValue_of_whole {v : Json} (hv : WholeValue v) : mangleValue v = v := by
  cases v with
  | str s => exact congrArg _ (mangle_of_whole hv)
  | null | bool | int | float | arr | obj => rfl

/-- An absent value stays absent. -/
theorem mangleValue_of_absent {v : Json} (hp : Plain v) (hv : keepScalar v = none) :
    mangleValue v = v := by
  cases v with
  | str s => exact congrArg _ (mangle_of_whole (whole_of_keepScalar hv))
  | null | bool | int | float | arr | obj => rfl

/-- If the same is kept of a value as of what is left of it, then it was whole. -/
theorem wholeValue_of_keepScalar {v w : Json} {r : Scalar} (hv : keepScalar v = some r)
    (hw : keepScalar (mangleValue w) = some r) : WholeValue v := by
  have hstr : ∀ (u : Json) (s : Str), keepScalar u = some (.str s) →
      ∃ t, u = .str t ∧ s = strip (collapse t) := by
    intro u s hu
    cases u with
    | str t =>
        refine ⟨t, rfl, ?_⟩
        simp only [keepScalar] at hu
        split_ifs at hu
        cases hu
        rfl
    | null | bool | int | float | arr | obj => cases hu
  cases v with
  | str s =>
      have hr : r = .str (strip (collapse s)) := by
        simp only [keepScalar] at hv
        split_ifs at hv
        cases hv
        rfl
      subst hr
      obtain ⟨t, ht, heq⟩ := hstr _ _ hw
      have hwhole : Whole t := by
        cases w with
        | str u =>
            cases ht
            exact whole_mangle u
        | null | bool | int | float | arr | obj => cases ht
      rw [WholeValue, ← whole_strip_collapse, heq, whole_strip_collapse]
      exact hwhole
  | null | bool | int | float | arr | obj => trivial

theorem lookup_filterMap (f : Str → Option Scalar) (keys : List Str) (k : Str) :
    (keys.filterMap fun x ↦ (f x).map fun v ↦ (x, v)).lookup k =
      if k ∈ keys then f k else none := by
  induction keys with
  | nil => rfl
  | cons x keys ih =>
      rw [List.filterMap_cons]
      by_cases hx : k = x
      · subst hx
        cases hf : f k with
        | none =>
            rw [hf] at ih
            rw [Option.map_none]
            simpa using ih
        | some v => simp
      · cases hf : f x with
        | none =>
            rw [Option.map_none]
            simpa [hx] using ih
        | some v =>
            have hne : (k == x) = false := by simpa using hx
            rw [Option.map_some]
            simpa [hx, List.lookup_cons, hne] using ih

theorem kept_cons (x : Str × Json) (l : Fields) :
    kept (x :: l) = ((keepScalar x.2).map fun v ↦ (x.1, v)).toList ++ kept l := by
  rw [kept, List.filterMap_cons]
  cases keepScalar x.2 with
  | none => rfl
  | some v => rfl

theorem mem_of_lookup_kept {l : Fields} {k : Str} {r : Scalar} (h : (kept l).lookup k = some r) :
    ∃ v, (k, v) ∈ l ∧ keepScalar v = some r := by
  induction l with
  | nil => cases h
  | cons x l ih =>
      rw [kept_cons, List.lookup_append] at h
      rcases Option.or_eq_some_iff.mp h with hx | ⟨-, hl⟩
      · cases hkeep : keepScalar x.2 with
        | none =>
            rw [hkeep] at hx
            cases hx
        | some v =>
            rw [hkeep] at hx
            by_cases hk : k = x.1
            · subst hk
              have hv : v = r := by simpa using hx
              exact ⟨x.2, List.mem_cons_self, hkeep.trans (congrArg _ hv)⟩
            · have hne : (k == x.1) = false := by simpa using hk
              simp [List.lookup_cons, hne] at hx
      · obtain ⟨v, hv, hr⟩ := ih hl
        exact ⟨v, List.mem_cons_of_mem _ hv, hr⟩

/-- The value that is kept for a key. -/
theorem lookup_kept {l : Fields} (hl : (l.map Prod.fst).Nodup) {k : Str} {v : Json} {r : Scalar}
    (hmem : (k, v) ∈ l) (hv : keepScalar v = some r) : (kept l).lookup k = some r := by
  induction l with
  | nil => cases hmem
  | cons x l ih =>
      rw [List.map_cons, List.nodup_cons] at hl
      rw [kept_cons, List.lookup_append]
      rcases List.mem_cons.mp hmem with rfl | hin
      · simp [hv]
      · have hne : k ≠ x.1 := by
          rintro rfl
          exact hl.1 (List.mem_map.mpr ⟨_, hin, rfl⟩)
        have hnone : (((keepScalar x.2).map fun v ↦ (x.1, v)).toList).lookup k = none := by
          have hbeq : (k == x.1) = false := by simpa using hne
          cases keepScalar x.2 with
          | none => rfl
          | some v => simp [List.lookup_cons, hbeq]
        rw [hnone, Option.none_or]
        exact ih hl.2 hin

variable {canon : FloatText → FloatText} {schema : Fields}

/-- What is read is decided key by key. -/
theorem undone_iff_lookup (d : Assignment schema) {before after : Str}
    (hb : .char '\x7b' ∉ before) (ha : .char '\x7d' ∉ after) :
    Undone canon d before after ↔ ∀ k,
      (if k ∈ schemaKeys schema then
        (getField (readBack d.fields) k).bind keepScalar else none) = (kept d.fields).lookup k := by
  have hload := loads_reply canon d.plain hb ha
  obtain ⟨t, ht, hdata⟩ := Option.bind_eq_some_iff.mp hload
  have hnil : ∀ l : List (Str × Scalar), l = [] ↔ ∀ k, l.lookup k = none := by
    intro l
    cases l with
    | nil => simp
    | cons x l =>
        refine iff_of_false (List.cons_ne_nil _ _) fun h ↦ ?_
        have hx := h x.1
        simp at hx
  obtain ⟨out, hout⟩ : ∃ out, out = (schemaKeys schema).filterMap fun k ↦
      ((getField (readBack d.fields) k).bind keepScalar).map fun v ↦ (k, v) := ⟨_, rfl⟩
  have hparse : parseFields canon (some (before ++ dumps true (.obj d.fields) ++ after)) schema =
      if out.isEmpty then none else some out := by
    rw [parseFields, Option.getD_some, ht]
    simp only [hdata, ← hout]
  have hlookup : ∀ k, out.lookup k =
      if k ∈ schemaKeys schema then (getField (readBack d.fields) k).bind keepScalar
        else none := by
    intro k
    rw [hout]
    exact lookup_filterMap (fun k ↦ (getField (readBack d.fields) k).bind keepScalar) _ k
  rw [Undone, hparse]
  simp only [← hlookup]
  cases out with
  | nil =>
      rw [List.isEmpty_nil, if_pos rfl, hnil]
      simp only [List.lookup_nil, eq_comm]
  | cons x out =>
      rw [List.isEmpty_cons, if_neg Bool.false_ne_true]
      exact and_iff_right (List.cons_ne_nil _ _)

/-- **Reading the fields of a reply.**  The reading undoes the writing exactly for the assignments
that come through. -/
theorem undone_iff (canon : FloatText → FloatText) (d : Assignment schema) {before after : Str}
    (hb : .char '\x7b' ∉ before) (ha : .char '\x7d' ∉ after) :
    Undone canon d before after ↔ ComesThrough d.fields := by
  rw [undone_iff_lookup d hb ha]
  constructor
  · intro h
    -- what is read for the key of a kept entry
    have hread : ∀ k v, (k, v) ∈ d.fields → keepScalar v ≠ none → ∃ r y front back,
        keepScalar v = some r ∧ keepScalar (mangleValue y.2) = some r ∧ mangle y.1 = k ∧
          d.fields = front ++ y :: back ∧ ∀ x ∈ back, mangle x.1 ≠ k := by
      intro k v hmem hne
      obtain ⟨r, hr⟩ := Option.ne_none_iff_exists'.mp hne
      have hk := h k
      rw [lookup_kept d.nodup hmem hr, if_pos (d.mem_keys _ hmem)] at hk
      obtain ⟨w, hw, hwr⟩ := Option.bind_eq_some_iff.mp hk
      obtain ⟨front, back, hsplit, hback⟩ := getField_ofPairs hw
      obtain ⟨front', rest, hfields, hfront, hrest⟩ := List.map_eq_append_iff.mp hsplit
      obtain ⟨y, back', hcons, hy, hback'⟩ := List.map_eq_cons_iff.mp hrest
      cases hy
      refine ⟨r, y, front', back', hr, hwr, rfl, hfields.trans (congrArg _ hcons), ?_⟩
      intro x hx
      exact hback (mangle x.1, mangleValue x.2) (hback' ▸ List.mem_map_of_mem hx)
    have hwhole : ∀ k v, (k, v) ∈ d.fields → keepScalar v ≠ none → Whole k ∧ WholeValue v := by
      intro k v hmem hne
      obtain ⟨r, y, front, back, hr, hyr, rfl, -, -⟩ := hread k v hmem hne
      exact ⟨whole_mangle _, wholeValue_of_keepScalar hr hyr⟩
    intro front k v back hsplit hne
    have hmem : (k, v) ∈ d.fields := by rw [hsplit]; simp
    refine ⟨(hwhole k v hmem hne).1, (hwhole k v hmem hne).2, ?_⟩
    -- the last entry that is read for this key is kept, so it is the entry itself
    obtain ⟨r, y, front', back', hr, hyr, hyk, hsplit', hback'⟩ := hread k v hmem hne
    have hymem : y ∈ d.fields := by rw [hsplit']; simp
    have hykeep : keepScalar y.2 ≠ none := by
      intro habsent
      rw [mangleValue_of_absent (d.plain y hymem) habsent, habsent] at hyr
      cases hyr
    have hyk' : y.1 = k := by rw [← hyk, mangle_of_whole (hwhole y.1 y.2 hymem hykeep).1]
    have hnodup := d.nodup
    rw [hsplit, List.map_append, List.map_cons, List.perm_middle.nodup_iff, List.nodup_cons,
      List.mem_append, not_or] at hnodup
    have hnot : y ∉ front ∧ y ∉ back :=
      ⟨fun hin ↦ hnodup.1.1 (List.mem_map.mpr ⟨y, hin, hyk'⟩),
        fun hin ↦ hnodup.1.2 (List.mem_map.mpr ⟨y, hin, hyk'⟩)⟩
    have hsame := (List.append_cons_inj_of_notMem hnot.1 hnot.2).mp (hsplit.symm.trans hsplit')
    rw [hsame.2.2]
    exact hback'
  · intro h k
    -- an entry that is read for the key and not dropped was kept, and under this key
    have hsource : ∀ w r, getField (readBack d.fields) k = some w → keepScalar w = some r →
        (k, w) ∈ d.fields := by
      intro w r hw hr
      obtain ⟨front, back, hsplit, -⟩ := getField_ofPairs hw
      obtain ⟨y, hy, heq⟩ : ∃ y ∈ d.fields, (mangle y.1, mangleValue y.2) = (k, w) := by
        have hin : (k, w) ∈ d.fields.map fun x ↦ (mangle x.1, mangleValue x.2) := by
          rw [hsplit]
          simp
        exact List.mem_map.mp hin
      have hykeep : keepScalar y.2 ≠ none := by
        intro habsent
        rw [← (Prod.mk.inj heq).2, mangleValue_of_absent (d.plain y hy) habsent, habsent] at hr
        cases hr
      obtain ⟨front', back', hsplit'⟩ := List.append_of_mem hy
      obtain ⟨hkey, hvalue, -⟩ := h front' y.1 y.2 back' hsplit' hykeep
      rw [mangle_of_whole hkey, mangleValue_of_whole hvalue] at heq
      rwa [← heq]
    cases hkept : (kept d.fields).lookup k with
    | some r =>
        obtain ⟨v, hmem, hr⟩ := mem_of_lookup_kept hkept
        obtain ⟨front, back, hsplit⟩ := List.append_of_mem hmem
        have hne : keepScalar v ≠ none := by
          rw [hr]
          exact Option.some_ne_none r
        obtain ⟨hkey, hvalue, hback⟩ := h front k v back hsplit hne
        have hread : getField (readBack d.fields) k = some v := by
          rw [readBack, hsplit, List.map_append, List.map_cons, mangle_of_whole hkey,
            mangleValue_of_whole hvalue]
          refine getField_ofPairs_append fun x hx ↦ ?_
          obtain ⟨y, hy, rfl⟩ := List.mem_map.mp hx
          exact hback y hy
        rw [if_pos (d.mem_keys _ hmem), hread, Option.bind_some, hr]
    | none =>
        split
        · rw [Option.bind_eq_none_iff]
          intro w hw
          by_contra hne
          obtain ⟨r, hr⟩ := Option.ne_none_iff_exists'.mp hne
          rw [lookup_kept d.nodup (hsource w r hw hr) hr] at hkept
          cases hkept
        · rfl

/-- A text for the only property of a schema. -/
def oneField (k s : Str) : Assignment (oneProperty k).modelDump where
  fields := [(k, .str s)]
  nodup := by simp
  mem_keys := by
    intro x hx
    rw [List.mem_singleton.mp hx]
    exact List.mem_cons_self
  plain := by
    intro x hx
    rw [List.mem_singleton.mp hx]
    trivial

theorem undone_vendor :
    Undone id (oneField (str "vendor") (str "ACME  Ltd")) (str "Here:\n\x60\x60\x60json\n")
      (str "\n\x60\x60\x60") := by
  have hbefore : .char '\x7b' ∉ str "Here:\n\x60\x60\x60json\n" := by decide
  have hafter : .char '\x7d' ∉ str "\n\x60\x60\x60" := by decide
  rw [undone_iff id _ hbefore hafter]
  intro front k v back hsplit _
  have hwhole : ∀ s : Str, ¬ fence <:+: s → encodable s = true → Whole s :=
    fun s hs he ↦ ⟨hs, unpaired_of_encodable he⟩
  rcases List.append_eq_singleton_iff.mp hsplit.symm with ⟨-, hx⟩ | ⟨-, hx⟩
  · cases hx
    exact ⟨hwhole _ (by decide) rfl, hwhole _ (by decide) rfl, nofun⟩
  · cases hx

/-- A text with a fence of its own loses it. -/
theorem fields_not_undone :
    ¬ ∀ body : ExtractionSchema, ∀ stored, body.update = .ok stored → ∀ d : Assignment stored,
      ∀ before after, (∀ c ∈ before ++ after, c ∉ str "\x7b\x7d\x60") →
        Undone id d before after := by
  intro hall
  have hundone := hall (oneProperty (str "note")) _ rfl
    (oneField (str "note") (str "use \x60\x60\x60x\x60\x60\x60")) [] [] (by simp)
  have hparse : parseFields id (some ([] ++ dumps true (.obj (oneField (str "note")
      (str "use \x60\x60\x60x\x60\x60\x60")).fields) ++ [])) (oneProperty (str "note")).modelDump =
      some [(str "note", .str (str "use x"))] := by decide
  rw [Undone, hparse] at hundone
  have hlookup := hundone.2 (str "note")
  revert hlookup
  decide

end Adapta.Extraction
