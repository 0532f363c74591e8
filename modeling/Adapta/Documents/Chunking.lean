import Mathlib.Algebra.GroupWithZero.Nat
import Mathlib.Algebra.Order.BigOperators.Group.List
import Mathlib.Data.Int.Order.Basic
import Adapta.Lib.Text

/-!
# Chunks of plain text

`chunk_text` of `adapta/services/documents.py` cuts a text into sentences and puts sentences
together until the chunk size is reached; the last sentences of a chunk, up to the overlap, begin
the next one.

A chunk is at most the chunk size and its longest sentence long, for every text, exactly if the
overlap is at most the chunk size: what is carried over is otherwise longer than a chunk, and
grows by a sentence from chunk to chunk.
-/

namespace Adapta.Documents

open Lib

/-! ## Sentences -/

/-- Where the pattern `(?<=[.!?])\s+` stands in a text. -/
inductive Mark where
  | inside
  /-- Behind one of `.!?`. -/
  | stop
  /-- In the white space of a match. -/
  | gap
deriving DecidableEq, Repr

def isStop (c : Code) : Bool := c ∈ [Code.char '.', .char '!', .char '?']

/-- The character belongs to the sentence that goes on. -/
def consHead (c : Code) : List Str → List Str
  | [] => [[c]]
  | s :: rest => (c :: s) :: rest

/-- `re.split`. -/
def split : Mark → Str → List Str
  | _, [] => [[]]
  | .inside, c :: s => consHead c (split (if isStop c then .stop else .inside) s)
  | .stop, c :: s =>
      if isSpace c then [] :: split .gap s
      else consHead c (split (if isStop c then .stop else .inside) s)
  | .gap, c :: s =>
      if isSpace c then split .gap s
      else consHead c (split (if isStop c then .stop else .inside) s)

/-- `text.replace("\n", " ")`. -/
def unwrap (text : Str) : Str :=
  text.map fun c ↦ if c = .char '\n' then .char ' ' else c

def sentences (text : Str) : List Str := split .inside (unwrap text)

/-! ## Chunks -/

structure Chunk where
  text : Str
  source : Str
  index : Nat
deriving DecidableEq, Repr

/-- `" ".join(current).strip()`. -/
def chunkStr (current : List Str) : Str := strip (current.intersperse (str " ")).flatten

/-- The loop's variables; a chunk is kept with the sentences it is made of. -/
structure Acc where
  chunks : List (List Str × Chunk)
  current : List Str
  currentLen : Nat
deriving DecidableEq, Repr

variable (source : Str) (chunkSize chunkOverlap : Int)

/-- A chunk of the current sentences, unless it is blank. -/
def Acc.emit (acc : Acc) : List (List Str × Chunk) :=
  if chunkStr acc.current = [] then acc.chunks
  else acc.chunks ++ [(acc.current, ⟨chunkStr acc.current, source, acc.chunks.length⟩)]

/-- The sentences that are carried over, from the last one, and their length. -/
def keepOverlap : List Str → List Str → Nat → List Str × Nat
  | [], words, len => (words, len)
  | s :: rest, words, len =>
      if chunkOverlap < len + s.length then (words, len)
      else keepOverlap rest (s :: words) (len + s.length)

/-- The loop's body. -/
def Acc.add (acc : Acc) (sentence : Str) : Acc :=
  let acc' :=
    if chunkSize < acc.currentLen + sentence.length ∧ acc.current ≠ [] then
      let kept := keepOverlap chunkOverlap acc.current.reverse [] 0
      { chunks := acc.emit source, current := kept.1, currentLen := kept.2 }
    else acc
  { acc' with
    current := acc'.current ++ [sentence]
    currentLen := acc'.currentLen + sentence.length }

/-- The chunks of the sentences, each with its own. -/
def chunksOf (l : List Str) : List (List Str × Chunk) :=
  let acc := l.foldl (Acc.add source chunkSize chunkOverlap) ⟨[], [], 0⟩
  if acc.current = [] then acc.chunks else acc.emit source

/-- `x or default`. -/
def pyOr (x : Option Int) (default : Int) : Int :=
  match x with
  | none => default
  | some n => if n = 0 then default else n

/-- The configured chunk size and overlap. -/
structure Defaults where
  chunkSize : Int
  chunkOverlap : Int
deriving DecidableEq, Repr

/-- `chunk_text`, with the sentences of each chunk. -/
def chunkText (d : Defaults) (text source : Str) (size overlap : Option Int) :
    List (List Str × Chunk) :=
  chunksOf source (pyOr size d.chunkSize) (pyOr overlap d.chunkOverlap) (sentences text)

/-! ## The bound -/

def totalLen (l : List Str) : Nat := (l.map List.length).sum

def longest (l : List Str) : Nat := (l.map List.length).foldr max 0

/-- At most the chunk size and the longest sentence. -/
def Bounded (chunkSize : Int) (l : List Str) : Prop := totalLen l ≤ chunkSize + longest l

section Bound

variable {source : Str} {chunkSize chunkOverlap : Int} {acc : Acc} {l words : List Str} {s : Str}

@[simp] theorem totalLen_nil : totalLen [] = 0 := rfl

@[simp] theorem totalLen_cons : totalLen (s :: l) = s.length + totalLen l := by simp [totalLen]

@[simp] theorem totalLen_append : totalLen (l ++ words) = totalLen l + totalLen words := by
  simp [totalLen]

theorem length_le_longest (h : s ∈ l) : s.length ≤ longest l := by
  induction l with
  | nil => cases h
  | cons t l ih =>
      rw [longest, List.map_cons, List.foldr_cons]
      rcases List.mem_cons.mp h with rfl | h
      · exact Nat.le_max_left ..
      · exact (ih h).trans (Nat.le_max_right ..)

theorem longest_le {k : Nat} (h : ∀ s ∈ l, s.length ≤ k) : longest l ≤ k := by
  induction l with
  | nil => exact Nat.zero_le k
  | cons t l ih =>
      rw [longest, List.map_cons, List.foldr_cons]
      apply Nat.max_le.mpr
      exact ⟨h t List.mem_cons_self, ih fun s hs ↦ h s (List.mem_cons_of_mem t hs)⟩

/-- What is carried over is in the overlap, or nothing, and its length is counted. -/
theorem keepOverlap_spec {len : Nat} (hlen : len = totalLen words)
    (hle : (len : Int) ≤ max chunkOverlap 0) :
    (keepOverlap chunkOverlap l words len).2 = totalLen (keepOverlap chunkOverlap l words len).1 ∧
      ((keepOverlap chunkOverlap l words len).2 : Int) ≤ max chunkOverlap 0 := by
  induction l generalizing words len with
  | nil => exact ⟨hlen, hle⟩
  | cons s l ih =>
      rw [keepOverlap]
      split
      · exact ⟨hlen, hle⟩
      · rename_i hfit
        apply ih
        · rw [totalLen_cons, hlen, Nat.add_comm]
        · exact le_max_of_le_left (by push_cast; omega)

/-- What holds between two sentences. -/
structure Acc.Inv (chunkSize : Int) (acc : Acc) : Prop where
  len : acc.currentLen = totalLen acc.current
  current : acc.current ≠ [] → Bounded chunkSize acc.current
  chunks : ∀ x ∈ acc.chunks, Bounded chunkSize x.1

theorem Acc.Inv.emit (h : acc.Inv chunkSize) (hne : acc.current ≠ []) :
    ∀ x ∈ acc.emit source, Bounded chunkSize x.1 := by
  rw [Acc.emit]
  split
  · exact h.chunks
  · intro x hx
    rcases List.mem_append.mp hx with hx | hx
    · exact h.chunks x hx
    · obtain rfl := List.mem_singleton.mp hx
      exact h.current hne

/-- A sentence after others that are no longer than a chunk. -/
theorem bounded_concat (h : (totalLen l : Int) ≤ chunkSize) : Bounded chunkSize (l ++ [s]) := by
  have hs := length_le_longest (l := l ++ [s]) (s := s) (by simp)
  rw [Bounded, totalLen_append, totalLen_cons, totalLen_nil]
  push_cast
  omega

/-- **A sentence keeps the chunks bounded**, if the overlap is at most the chunk size. -/
theorem Acc.Inv.add (h : acc.Inv chunkSize) (hsize : 0 ≤ chunkSize)
    (hover : chunkOverlap ≤ chunkSize) :
    (acc.add source chunkSize chunkOverlap s).Inv chunkSize := by
  rw [Acc.add]
  split
  · rename_i hfull
    obtain ⟨hlen, hle⟩ : (keepOverlap chunkOverlap acc.current.reverse [] 0).2 =
          totalLen (keepOverlap chunkOverlap acc.current.reverse [] 0).1 ∧
        ((keepOverlap chunkOverlap acc.current.reverse [] 0).2 : Int) ≤ max chunkOverlap 0 :=
      keepOverlap_spec rfl (by omega)
    have hkept : (totalLen (keepOverlap chunkOverlap acc.current.reverse [] 0).1 : Int) ≤
        chunkSize := by omega
    exact ⟨by simp [hlen], fun _ ↦ bounded_concat hkept, h.emit hfull.2⟩
  · rename_i hfits
    refine ⟨by simp [h.len], fun _ ↦ ?_, h.chunks⟩
    by_cases hnil : acc.current = []
    · rw [hnil]
      exact bounded_concat (by simpa using hsize)
    · have hroom : ¬chunkSize < acc.currentLen + s.length := fun hlt ↦ hfits ⟨hlt, hnil⟩
      have hlen := h.len
      rw [Bounded, totalLen_append, totalLen_cons, totalLen_nil]
      push_cast
      omega

theorem bounded_chunksOf (hsize : 0 ≤ chunkSize) (hover : chunkOverlap ≤ chunkSize) :
    ∀ x ∈ chunksOf source chunkSize chunkOverlap l, Bounded chunkSize x.1 := by
  have hinv : ∀ acc : Acc, acc.Inv chunkSize →
      (l.foldl (Acc.add source chunkSize chunkOverlap) acc).Inv chunkSize := by
    induction l with
    | nil => exact fun acc h ↦ h
    | cons s l ih => exact fun acc h ↦ ih _ (h.add hsize hover)
  have hlast := hinv ⟨[], [], 0⟩ ⟨rfl, fun hne ↦ absurd rfl hne, by simp⟩
  rw [chunksOf]
  split
  · exact hlast.chunks
  · rename_i hne
    exact hlast.emit hne

/-! ## Where it fails -/

/-- Sentences of one character: `. . .` and so on, one more than `n`. -/
def dots : Nat → Str
  | 0 => [.char '.']
  | n + 1 => .char '.' :: .char ' ' :: dots n

theorem split_dots {n : Nat} {m : Mark} (hm : m ≠ .stop) :
    split m (dots n) = List.replicate (n + 1) [.char '.'] := by
  have hhead : ∀ t, split m (.char '.' :: t) = consHead (.char '.') (split .stop t) := by
    intro t
    cases m with
    | inside => rfl
    | stop => exact absurd rfl hm
    | gap => rfl
  induction n generalizing m with
  | zero =>
      rw [dots, hhead]
      rfl
  | succ n ih =>
      have hgap : split .stop (.char ' ' :: dots n) = [] :: split .gap (dots n) := rfl
      rw [dots, hhead, hgap, ih (by simp) (fun _ ↦ rfl)]
      rfl

theorem unwrap_dots (n : Nat) : unwrap (dots n) = dots n := by
  induction n with
  | zero => rfl
  | succ n ih =>
      rw [unwrap] at ih ⊢
      rw [dots, List.map_cons, List.map_cons, ih]
      rfl

theorem sentences_dots (n : Nat) : sentences (dots n) = List.replicate (n + 1) [.char '.'] := by
  rw [sentences, unwrap_dots, split_dots (by simp)]

theorem totalLen_replicate (n : Nat) : totalLen (List.replicate n [Code.char '.']) = n := by
  simp [totalLen]

/-- Everything is carried over that fits in the overlap. -/
theorem keepOverlap_all {len : Nat} (h : ((len + totalLen l : Nat) : Int) ≤ chunkOverlap) :
    keepOverlap chunkOverlap l words len = (l.reverse ++ words, len + totalLen l) := by
  induction l generalizing words len with
  | nil => simp [keepOverlap]
  | cons s l ih =>
      rw [totalLen_cons] at h
      push_cast at h
      rw [keepOverlap, if_neg (by omega), ih (by push_cast; omega), totalLen_cons]
      simp [Nat.add_assoc]

/-- As long as the sentences fit in the overlap, none is left behind. -/
theorem add_dot {n : Nat} (hn : (n : Int) ≤ chunkOverlap)
    (hcur : acc.current = List.replicate n [.char '.']) (hlen : acc.currentLen = n) :
    (acc.add source chunkSize chunkOverlap [.char '.']).current =
        List.replicate (n + 1) [.char '.'] ∧
      (acc.add source chunkSize chunkOverlap [.char '.']).currentLen = n + 1 := by
  have hkept : keepOverlap chunkOverlap acc.current.reverse [] 0 =
      (List.replicate n [.char '.'], n) := by
    rw [hcur, List.reverse_replicate, keepOverlap_all]
    · simp [totalLen_replicate]
    · simpa [totalLen_replicate] using hn
  rw [Acc.add]
  split
  · simp [hkept, List.replicate_succ']
  · simp [hcur, hlen, List.replicate_succ']

theorem foldl_dots {n k : Nat} (hn : ((n + k : Nat) : Int) ≤ chunkOverlap + 1)
    (hcur : acc.current = List.replicate k [.char '.']) (hlen : acc.currentLen = k) :
    ((List.replicate n [Code.char '.']).foldl (Acc.add source chunkSize chunkOverlap) acc).current =
      List.replicate (n + k) [.char '.'] := by
  induction n generalizing acc k with
  | zero => simpa using hcur
  | succ n ih =>
      push_cast at hn
      have hk : (k : Int) ≤ chunkOverlap := by omega
      obtain ⟨hcur', hlen'⟩ : (acc.add source chunkSize chunkOverlap [.char '.']).current =
          List.replicate (k + 1) [.char '.'] ∧
        (acc.add source chunkSize chunkOverlap [.char '.']).currentLen = k + 1 :=
        add_dot hk hcur hlen
      have hrest : ((n + (k + 1) : Nat) : Int) ≤ chunkOverlap + 1 := by
        push_cast
        omega
      rw [List.replicate_succ, List.foldl_cons, ih hrest hcur' hlen', Nat.add_right_comm n 1 k,
        Nat.add_assoc]

/-- A chunk of the sentences `. . .` is not blank. -/
theorem chunkStr_dots (n : Nat) : chunkStr (List.replicate (n + 1) [.char '.']) ≠ [] := by
  have hhead : ((List.replicate (n + 1) [Code.char '.']).intersperse (str " "))[2 * 0]? =
      some [.char '.'] := by
    rw [List.getElem?_intersperse_two_mul]
    rfl
  rw [chunkStr, strip_ne_nil_iff]
  refine ⟨.char '.', List.mem_flatten.mpr ⟨[.char '.'], List.mem_of_getElem? hhead, ?_⟩, by decide⟩
  exact List.mem_singleton_self _

/-- The chunk that the loop ends with. -/
theorem mem_chunksOf
    (hlast : (l.foldl (Acc.add source chunkSize chunkOverlap) ⟨[], [], 0⟩).current = words)
    (hwords : words ≠ []) (hstr : chunkStr words ≠ []) :
    ∃ x ∈ chunksOf source chunkSize chunkOverlap l, x.1 = words := by
  subst hlast
  rw [chunksOf, if_neg hwords, Acc.emit, if_neg hstr]
  exact ⟨_, List.mem_append_right _ (List.mem_singleton_self _), rfl⟩

/-- With a larger overlap a chunk gets one sentence too many. -/
theorem exists_long_of_overlap (hsize : 0 ≤ chunkSize) (hover : chunkSize < chunkOverlap) :
    ∃ text, ∃ x ∈ chunksOf source chunkSize chunkOverlap (sentences text),
      ¬Bounded chunkSize x.1 := by
  obtain ⟨n, rfl⟩ := Int.eq_ofNat_of_zero_le hsize
  have hfits : ((n + 2 + 0 : Nat) : Int) ≤ chunkOverlap + 1 := by
    push_cast
    omega
  have hlast : ((List.replicate (n + 2) [Code.char '.']).foldl
      (Acc.add source n chunkOverlap) ⟨[], [], 0⟩).current = List.replicate (n + 2) [.char '.'] :=
    foldl_dots hfits rfl rfl
  obtain ⟨x, hx, hwords⟩ := mem_chunksOf hlast (by simp) (chunkStr_dots (n + 1))
  refine ⟨dots (n + 1), x, ?_, ?_⟩
  · rwa [sentences_dots]
  · have hlong : longest (List.replicate (n + 2) [Code.char '.']) ≤ 1 := by
      apply longest_le
      intro s hs
      rw [List.eq_of_mem_replicate hs]
      rfl
    rw [hwords, Bounded, totalLen_replicate]
    push_cast
    omega

/-- Below zero no sentence is short enough. -/
theorem exists_long_of_neg (hsize : chunkSize < 0) :
    ∃ text, ∃ x ∈ chunksOf source chunkSize chunkOverlap (sentences text),
      ¬Bounded chunkSize x.1 := by
  have hlast : ([[Code.char '.']].foldl (Acc.add source chunkSize chunkOverlap)
      ⟨[], [], 0⟩).current = [[.char '.']] := by simp [Acc.add]
  obtain ⟨x, hx, hwords⟩ := mem_chunksOf hlast (by simp) (chunkStr_dots 0)
  refine ⟨dots 0, x, ?_, ?_⟩
  · rwa [sentences_dots]
  · have htotal : totalLen [[Code.char '.']] = 1 := rfl
    have hlong : longest [[Code.char '.']] = 1 := rfl
    rw [hwords, Bounded, htotal, hlong]
    omega

/-- The chunks of every text are bounded exactly if the overlap is at most the chunk size. -/
theorem bounded_iff : (∀ text, ∀ x ∈ chunksOf source chunkSize chunkOverlap (sentences text),
    Bounded chunkSize x.1) ↔ 0 ≤ chunkSize ∧ chunkOverlap ≤ chunkSize := by
  constructor
  · intro h
    by_contra hno
    obtain ⟨text, x, hx, hlong⟩ : ∃ text, ∃ x ∈ chunksOf source chunkSize chunkOverlap
        (sentences text), ¬Bounded chunkSize x.1 := by
      rcases lt_or_ge chunkSize 0 with hneg | hpos
      · exact exists_long_of_neg hneg
      · exact exists_long_of_overlap hpos (by omega)
    exact hlong (h text x hx)
  · rintro ⟨hsize, hover⟩ text
    exact bounded_chunksOf hsize hover

end Bound

end Adapta.Documents
