import Mathlib.Data.List.Nodup
import Mathlib.Data.List.TakeWhile

/-!
# Bind names of a SQL text

A `:name` in the text of a statement stands for a parameter, unless the colon comes after another
colon, after a backslash or inside a word, or a colon comes after the name.  A `::` is a cast.

`scan` finds the names in their order.  What it finds in two texts, one after the other, is what
it finds in each, if the second one does not go on with a name.
-/

namespace Lib

/-- A character of a name; the texts are ASCII. -/
def isNameChar (c : Char) : Bool := c.isAlphanum || c = '_'

/-- No name begins at a colon after this character. -/
def guardsColon (c : Char) : Bool := isNameChar c || c = ':' || c = '\\'

/-- The name that a text begins with.  If a colon comes after it, its last character is not
taken. -/
def nameAt (s : List Char) : Option (List Char) :=
  let w := s.takeWhile isNameChar
  let name := if (s.dropWhile isNameChar).head? = some ':' then w.dropLast else w
  if name = [] then none else some name

/-- The names after the colons of a text that comes after the character `prev`. -/
def scan (prev : Char) : List Char → List (List Char)
  | [] => []
  | c :: s =>
      if c = ':' ∧ guardsColon prev = false then (nameAt s).toList ++ scan c s else scan c s

/-- The bind names of a statement, in their order. -/
def bindNames (sql : String) : List String := (scan ' ' sql.toList).map String.ofList

/-- A text that no name goes on with. -/
def Breaks (s : List Char) : Prop := ∀ c ∈ s.head?, isNameChar c = false ∧ c ≠ ':'

variable {prev : Char} {s t w : List Char}

theorem takeWhile_append_breaks (ht : Breaks t) (s : List Char) :
    (s ++ t).takeWhile isNameChar = s.takeWhile isNameChar ∧
      (s ++ t).dropWhile isNameChar = s.dropWhile isNameChar ++ t := by
  induction s with
  | nil =>
      cases t with
      | nil => exact ⟨rfl, rfl⟩
      | cons c t =>
          have hc := (ht c rfl).1
          simp [hc]
  | cons c s ih =>
      by_cases hc : isNameChar c = true
      · simp [hc, ih.1, ih.2]
      · simp [hc]

theorem nameAt_append (ht : Breaks t) (s : List Char) : nameAt (s ++ t) = nameAt s := by
  obtain ⟨htake, hdrop⟩ := takeWhile_append_breaks ht s
  have hhead : (s.dropWhile isNameChar ++ t).head? = some ':' ↔
      (s.dropWhile isNameChar).head? = some ':' := by
    cases s.dropWhile isNameChar with
    | nil =>
        refine iff_of_false (fun h ↦ ?_) (by simp)
        exact (ht ':' h).2 rfl
    | cons c r => rfl
  simp only [nameAt, htake, hdrop, hhead]

/-- What stands before does not matter to a text that begins otherwise than with a colon. -/
theorem scan_congr (ht : Breaks t) (p q : Char) : scan p t = scan q t := by
  cases t with
  | nil => rfl
  | cons c t =>
      have hc := (ht c rfl).2
      rw [scan, scan, if_neg fun h ↦ hc h.1, if_neg fun h ↦ hc h.1]

theorem scan_append (ht : Breaks t) (q : Char) : scan prev (s ++ t) = scan prev s ++ scan q t := by
  induction s generalizing prev with
  | nil => exact scan_congr ht prev q
  | cons c s ih =>
      rw [List.cons_append, scan, scan, ih, nameAt_append ht]
      split
      · rw [List.append_assoc]
      · rfl

/-- A text without colons has no names. -/
theorem scan_of_not_mem (h : ':' ∉ s) : scan prev s = [] := by
  induction s generalizing prev with
  | nil => rfl
  | cons c s ih =>
      rw [List.mem_cons, not_or] at h
      rw [scan, if_neg fun hc ↦ h.1 hc.1.symm, ih h.2]

/-- A colon and a name that ends with the text. -/
theorem scan_name (hprev : guardsColon prev = false) (hw : ∀ c ∈ w, isNameChar c = true)
    (hne : w ≠ []) : scan prev (':' :: w) = [w] := by
  have htake : w.takeWhile isNameChar = w := List.takeWhile_eq_self_iff.mpr hw
  have hdrop : w.dropWhile isNameChar = [] := List.dropWhile_eq_nil_iff.mpr hw
  have hcolon : ':' ∉ w := by
    intro h
    exact absurd (hw _ h) (by decide)
  have hname : nameAt w = some w := by
    simp [nameAt, htake, hdrop, hne]
  rw [scan, if_pos ⟨rfl, hprev⟩, hname, scan_of_not_mem hcolon]
  rfl

/-! ## Statements -/

theorem bindNames_ofList (s : List Char) :
    bindNames (String.ofList s) = (scan ' ' s).map String.ofList := by
  rw [bindNames, String.toList_ofList]

theorem bindNames_ofList_append (s t : List Char) :
    bindNames (String.ofList s ++ String.ofList t) = (scan ' ' (s ++ t)).map String.ofList := by
  rw [← String.ofList_append, bindNames_ofList]

/-- A line break begins no name and ends none. -/
theorem bindNames_line (a : String) : bindNames ("\n" ++ a) = bindNames a := by
  have hlist : ("\n" ++ a).toList = '\n' :: a.toList := by
    rw [String.toList_append]
    rfl
  have hscan : ∀ s : List Char, scan '\n' s = scan ' ' s := by
    intro s
    cases s with
    | nil => rfl
    | cons c s => rfl
  rw [bindNames, hlist, scan, if_neg (by decide), hscan, bindNames]

/-- The names of two texts, one after the other. -/
theorem bindNames_append (a : String) {b : String} (hb : Breaks b.toList) :
    bindNames (a ++ b) = bindNames a ++ bindNames b := by
  rw [bindNames, String.toList_append, scan_append hb ' ', List.map_append]
  rfl

theorem breaks_append {a : String} (ha : a ≠ "") (h : Breaks a.toList) (b : String) :
    Breaks (a ++ b).toList := by
  intro c hc
  rw [String.toList_append] at hc
  cases hs : a.toList with
  | nil => exact absurd (String.toList_eq_nil_iff.mp hs) ha
  | cons d t =>
      rw [hs] at h hc
      exact h c hc

/-- The names of texts that are put together. -/
theorem bindNames_join {l : List String} (hl : ∀ a ∈ l, a ≠ "" ∧ Breaks a.toList) :
    bindNames (String.join l) = l.flatMap bindNames ∧ Breaks (String.join l).toList := by
  induction l with
  | nil => exact ⟨rfl, by simp [Breaks]⟩
  | cons a l ih =>
      obtain ⟨hnames, hbreaks⟩ := ih fun b hb ↦ hl b (List.mem_cons_of_mem a hb)
      obtain ⟨hne, ha⟩ := hl a List.mem_cons_self
      rw [String.join_cons, bindNames_append a hbreaks, hnames]
      exact ⟨rfl, breaks_append hne ha _⟩

/-- A blank, a colon and a name. -/
theorem bindNames_name {a : String} (ha : ∀ c ∈ a.toList, isNameChar c = true) (hne : a ≠ "") :
    bindNames (" :" ++ a) = [a] := by
  have hscan : scan ' ' (':' :: a.toList) = [a.toList] :=
    scan_name (by decide) ha (by simpa using hne)
  have hblank : scan ' ' (' ' :: ':' :: a.toList) = scan ' ' (':' :: a.toList) :=
    if_neg (by decide)
  rw [bindNames, String.toList_append]
  show (scan ' ' (' ' :: ':' :: a.toList)).map String.ofList = [a]
  rw [hblank, hscan, List.map_singleton, String.ofList_toList]

/-! ## Numbered names -/

theorem isNameChar_toString {i : Nat} {c : Char} (hc : c ∈ (toString i).toList) :
    isNameChar c = true := by
  rw [Nat.toString_eq_repr, Nat.toList_repr] at hc
  have hdigit := Nat.isDigit_of_mem_toDigits (by decide) (by decide) hc
  simp [isNameChar, Char.isAlphanum, hdigit]

/-- A name that ends with a number. -/
theorem bindNames_numbered {a : String} (ha : a.toList.all isNameChar = true) (hne : a ≠ "")
    (i : Nat) : bindNames (" :" ++ (a ++ toString i)) = [a ++ toString i] := by
  refine bindNames_name (fun c hc ↦ ?_) fun h ↦ hne (String.append_eq_empty_iff.mp h).1
  rw [String.toList_append, List.mem_append] at hc
  exact hc.elim (List.all_eq_true.mp ha c) isNameChar_toString

theorem breaks_blank {a : String} (ha : a.toList.head? = some ' ') : Breaks a.toList := by
  intro c hc
  rw [ha] at hc
  cases hc
  decide

theorem breaks_blank_append {a : String} (ha : a.toList.head? = some ' ') (b : String) :
    Breaks (a ++ b).toList := by
  refine breaks_append (fun h ↦ ?_) (breaks_blank ha) b
  rw [h] at ha
  cases ha

theorem numbered_inj {a : String} {i j : Nat} (h : a ++ toString i = a ++ toString j) : i = j := by
  have hlist := congrArg String.toList h
  rw [String.toList_append, String.toList_append] at hlist
  have hdigits : Nat.toDigits 10 i = Nat.toDigits 10 j := by
    simpa only [Nat.toString_eq_repr, Nat.toList_repr] using List.append_cancel_left hlist
  rw [← Nat.ofDigitChars_ten_toDigits (n := i), hdigits, Nat.ofDigitChars_ten_toDigits]

/-- Texts that differ early on differ, whatever comes then. -/
theorem append_ne {a b : String} (n : Nat) (hab : a.toList.take n ≠ b.toList.take n)
    (ha : n ≤ a.toList.length) (hb : n ≤ b.toList.length) (x y : String) : a ++ x ≠ b ++ y := by
  intro h
  have hlist := congrArg (List.take n ∘ String.toList) h
  simp only [Function.comp_apply, String.toList_append] at hlist
  rw [List.take_append_of_le_length ha, List.take_append_of_le_length hb] at hlist
  exact hab hlist

/-! ## Arguments -/

/-- Each name that occurs in a statement has exactly one argument, and each argument a name that
occurs. -/
structure WellBound {β : Type*} (sql : String) (args : List (String × β)) : Prop where
  nodup : (args.map Prod.fst).Nodup
  mem_iff : ∀ name, name ∈ bindNames sql ↔ name ∈ args.map Prod.fst

namespace WellBound

variable {β γ : Type*} {sql head tail : String} {args own : List (String × β)}

theorem names_map (g : β → γ) (args : List (String × β)) :
    (args.map (Prod.map id g)).map Prod.fst = args.map Prod.fst := by
  rw [List.map_map]
  rfl

/-- The order of the arguments does not matter. -/
theorem perm (h : WellBound sql args) (hperm : args.Perm own) : WellBound sql own where
  nodup := ((hperm.map Prod.fst).nodup_iff).mp h.nodup
  mem_iff := fun name ↦ (h.mem_iff name).trans (hperm.map Prod.fst).mem_iff

/-- Nor do the values. -/
theorem map (h : WellBound sql args) (g : β → γ) : WellBound sql (args.map (Prod.map id g)) where
  nodup := by
    rw [names_map]
    exact h.nodup
  mem_iff := fun name ↦ by
    rw [names_map]
    exact h.mem_iff name

/-- A fragment goes into a statement that has names of its own, if those are other names. -/
theorem splice (h : WellBound sql args) (hsql : Breaks sql.toList) (htail : Breaks tail.toList)
    (hown : WellBound (head ++ tail) own)
    (hdisjoint : (args.map Prod.fst).Disjoint (own.map Prod.fst)) :
    WellBound (head ++ sql ++ tail) (args ++ own) where
  nodup := by
    rw [List.map_append]
    exact List.nodup_append'.mpr ⟨h.nodup, hown.nodup, hdisjoint⟩
  mem_iff := fun name ↦ by
    have hmem := hown.mem_iff name
    rw [bindNames_append _ htail, List.mem_append] at hmem
    rw [bindNames_append _ htail, bindNames_append _ hsql, List.map_append]
    simp only [List.mem_append, h.mem_iff name, ← hmem]
    rw [or_assoc, or_left_comm]

end WellBound

end Lib
