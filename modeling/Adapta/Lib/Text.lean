import Mathlib.Data.List.DropRight
import Mathlib.Data.List.Infix

/-!
# Strings of code points

A Python string is a sequence of code points, and unlike a Lean string it may hold
surrogates that are not part of a pair.  `Str` is such a sequence, with the operations
that do not depend on Unicode tables: white space, stripping, and the lines of a text
file, which end in `\n`, `\r` or `\r\n`.
-/

namespace Lib

/-- A code point: a character, or a surrogate by itself. -/
inductive Code where
  | char (c : Char)
  | surrogate (n : Fin 2048)
deriving DecidableEq, Repr

abbrev Str := List Code

instance : LawfulBEq Str := inferInstance

/-- A string without surrogates. -/
def str (s : String) : Str := s.toList.map .char

/-- Rewriting with this spares an evaluation the decoding of a literal. -/
theorem str_ofList (s : List Char) : str (String.ofList s) = s.map .char := by
  rw [str, String.toList_ofList]

/-- `ord`. -/
def Code.ord : Code → Nat
  | .char c => c.toNat
  | .surrogate n => 0xD800 + n

/-- A string that UTF-8 can encode. -/
def encodable (s : Str) : Bool :=
  s.all fun
    | .char _ => true
    | .surrogate _ => false

/-! ## White space -/

/-- `str.isspace`, for one character; also `\s` in a regular expression. -/
def isSpace (c : Code) : Bool :=
  (9 ≤ c.ord && c.ord ≤ 13) || (28 ≤ c.ord && c.ord ≤ 32) || (0x2000 ≤ c.ord && c.ord ≤ 0x200A) ||
    c.ord ∈ [0x85, 0xA0, 0x1680, 0x2028, 0x2029, 0x202F, 0x205F, 0x3000]

/-- `str.strip`. -/
def strip (s : Str) : Str := (s.dropWhile isSpace).rdropWhile isSpace

/-- The pattern `\s+` replaced by one space. -/
def collapse : Str → Str
  | [] => []
  | c :: s =>
      if isSpace c then
        match collapse s with
        | .char ' ' :: t => .char ' ' :: t
        | t => .char ' ' :: t
      else c :: collapse s

theorem dropWhile_append_cons {c : Code} (hc : isSpace c = false) (x t : Str) :
    (x ++ c :: t).dropWhile isSpace = x.dropWhile isSpace ++ c :: t := by
  rw [List.dropWhile_append]
  split
  · next hnil =>
      rw [List.isEmpty_iff.mp hnil, List.dropWhile_cons_of_neg (by simp [hc]), List.nil_append]
  · rfl

/-- What is between two characters that are no white space stays. -/
theorem strip_around {c d : Code} (hc : isSpace c = false) (hd : isSpace d = false)
    (x s z : Str) : strip (x ++ c :: (s ++ d :: z)) =
      x.dropWhile isSpace ++ c :: (s ++ d :: z.rdropWhile isSpace) := by
  have hrev : (x.dropWhile isSpace ++ c :: (s ++ d :: z)).reverse =
      z.reverse ++ d :: (x.dropWhile isSpace ++ c :: s).reverse := by simp
  rw [strip, dropWhile_append_cons hc, List.rdropWhile, hrev, dropWhile_append_cons hd]
  simp [List.rdropWhile]

/-- Nothing is stripped off a string whose ends are no white space. -/
theorem strip_eq_self {c d : Code} {s : Str} (hc : isSpace c = false) (hd : isSpace d = false) :
    strip (c :: (s ++ [d])) = c :: (s ++ [d]) :=
  strip_around hc hd [] s []

/-- White space at the end does not matter. -/
theorem strip_concat {c : Code} (hc : isSpace c = true) (s : Str) : strip (s ++ [c]) = strip s := by
  rw [strip, strip, List.dropWhile_append]
  split
  · next hnil =>
      rw [List.isEmpty_iff.mp hnil, List.dropWhile_cons_of_pos hc]
      rfl
  · exact List.rdropWhile_concat_pos _ _ _ hc

/-- Something is left of a string that is not all white space. -/
theorem strip_ne_nil_iff {s : Str} : strip s ≠ [] ↔ ∃ c ∈ s, isSpace c = false := by
  have hnil : strip s = [] ↔ ∀ c ∈ s, isSpace c = true := by
    rw [strip, List.rdropWhile_eq_nil_iff]
    constructor
    · intro h c hc
      rw [← List.takeWhile_append_dropWhile (p := isSpace) (l := s)] at hc
      rcases List.mem_append.mp hc with hc | hc
      · exact List.mem_takeWhile_imp hc
      · exact h c hc
    · intro h c hc
      exact h c ((List.dropWhile_sublist _).subset hc)
  rw [Ne, hnil]
  simp

/-- Nothing is left to strip. -/
theorem strip_strip (s : Str) : strip (strip s) = strip s := by
  have hhead : (strip s).dropWhile isSpace = strip s := by
    rw [List.dropWhile_eq_self_iff]
    intro h
    have hp : strip s <+: s.dropWhile isSpace := List.rdropWhile_prefix _ _
    rw [hp.getElem h]
    exact List.dropWhile_get_zero_not _ _ _
  conv_lhs => rw [strip, hhead]
  exact List.rdropWhile_idempotent _ _

/-! ## Lines -/

/-- The lines of a text file; each keeps its line end, as `\n`. -/
def lines : Str → List Str
  | [] => []
  | .char '\r' :: .char '\n' :: s => [.char '\n'] :: lines s
  | c :: s =>
      if c = .char '\n' ∨ c = .char '\r' then [.char '\n'] :: lines s
      else
        match lines s with
        | [] => [[c]]
        | l :: ls => (c :: l) :: ls

/-- A string without line ends. -/
def Inline (s : Str) : Prop := ∀ c ∈ s, c ≠ .char '\n' ∧ c ≠ .char '\r'

theorem lines_cons {c : Code} (hn : c ≠ .char '\n') (hr : c ≠ .char '\r') (s : Str) :
    lines (c :: s) =
      match lines s with
      | [] => [[c]]
      | l :: ls => (c :: l) :: ls := by
  rw [lines, if_neg (not_or.mpr ⟨hn, hr⟩)]
  rintro t rfl
  exact absurd rfl hr

/-- The first line ends at the first line end. -/
theorem lines_append {s : Str} (hs : Inline s) (t : Str) :
    lines (s ++ .char '\n' :: t) = (s ++ [.char '\n']) :: lines t := by
  induction s with
  | nil => simp [lines]
  | cons c s ih =>
      obtain ⟨hn, hr⟩ := hs c List.mem_cons_self
      rw [List.cons_append, lines_cons hn hr, ih fun d hd ↦ hs d (List.mem_cons_of_mem _ hd)]
      rfl

/-- A file with one line for each of `l`. -/
def unlines (l : List Str) : Str := l.flatMap (· ++ [.char '\n'])

theorem lines_unlines {l : List Str} (h : ∀ s ∈ l, Inline s) :
    lines (unlines l) = l.map (· ++ [.char '\n']) := by
  induction l with
  | nil => rfl
  | cons s l ih =>
      rw [unlines, List.flatMap_cons, List.append_assoc, List.singleton_append, lines_append
        (h s List.mem_cons_self), List.map_cons]
      exact congrArg _ (ih fun t ht ↦ h t (List.mem_cons_of_mem _ ht))

end Lib
