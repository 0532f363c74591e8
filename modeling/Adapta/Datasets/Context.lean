import Adapta.Lib.Window
import Adapta.Chat.Prompt
import Mathlib.Algebra.GroupWithZero.Nat

/-!
# The context of a chunk

For contextual retrieval a model is asked to situate each chunk inside its document.
`_context_window` of `adapta/services/synthesis.py` chooses what it is shown of the document:
all of it if it fits the budget, else the chunk with as many of its neighbours as fit.
-/

namespace Adapta.Datasets

open Lib
open Chat (join)

/-! ## The source -/

section Grow

variable (texts : List Str) (budget : Int)

/-- The number of characters of all the texts. -/
def totalLength (l : List Str) : Nat := (l.map List.length).sum

/-- The text at a position. -/
def textAt (k : Nat) : Str := texts[k]?.getD []

/-- The variables of the loop of `_context_window`. -/
structure Grown where
  lo : Nat
  hi : Nat
  used : Nat

namespace Grown

variable (g : Grown)

/-- The first test of the loop's body. -/
def RoomLeft : Prop := 0 < g.lo ∧ (g.used + (textAt texts (g.lo - 1)).length : Int) ≤ budget

instance : Decidable (RoomLeft texts budget g) := inferInstanceAs (Decidable (_ ∧ _))

/-- The second test. -/
def RoomRight : Prop :=
  g.hi < texts.length - 1 ∧ (g.used + (textAt texts (g.hi + 1)).length : Int) ≤ budget

instance : Decidable (RoomRight texts budget g) := inferInstanceAs (Decidable (_ ∧ _))

def left : Grown :=
  if g.RoomLeft texts budget then
    { g with lo := g.lo - 1, used := g.used + (textAt texts (g.lo - 1)).length }
  else g

def right : Grown :=
  if g.RoomRight texts budget then
    { g with hi := g.hi + 1, used := g.used + (textAt texts (g.hi + 1)).length }
  else g

/-- One pass through the body left a mark in `grew`. -/
def Grew : Prop := g.RoomLeft texts budget ∨ (g.left texts budget).RoomRight texts budget

instance : Decidable (Grew texts budget g) := inferInstanceAs (Decidable (_ ∨ _))

/-- The number of texts outside. -/
def outside : Nat := g.lo + (texts.length - 1 - g.hi)

theorem left_of_room (h : g.RoomLeft texts budget) : g.left texts budget =
    { g with lo := g.lo - 1, used := g.used + (textAt texts (g.lo - 1)).length } := if_pos h

theorem left_of_not_room (h : ¬ g.RoomLeft texts budget) : g.left texts budget = g := if_neg h

theorem right_of_room (h : g.RoomRight texts budget) : g.right texts budget =
    { g with hi := g.hi + 1, used := g.used + (textAt texts (g.hi + 1)).length } := if_pos h

theorem right_of_not_room (h : ¬ g.RoomRight texts budget) : g.right texts budget = g := if_neg h

/-- Each text that is added is one less outside. -/
theorem outside_lt (h : g.Grew texts budget) :
    ((g.left texts budget).right texts budget).outside texts < g.outside texts := by
  have hright : ∀ g' : Grown, (g'.right texts budget).outside texts ≤ g'.outside texts := by
    intro g'
    rw [right]
    split
    · simp only [outside]
      omega
    · exact le_rfl
  by_cases hl : g.RoomLeft texts budget
  · refine (hright _).trans_lt ?_
    rw [left_of_room _ _ _ hl]
    simp only [outside]
    have := hl.1
    omega
  · have hr := h.resolve_left hl
    rw [left_of_not_room _ _ _ hl] at hr ⊢
    rw [right_of_room _ _ _ hr]
    simp only [outside]
    have := hr.1
    omega

/-- The loop. -/
def grow (g : Grown) : Grown :=
  if _ : g.Grew texts budget then grow ((g.left texts budget).right texts budget) else g
termination_by g.outside texts
decreasing_by exact outside_lt _ _ _ ‹_›

end Grown

/-- What the loop alone gives for the chunk at position `i`. -/
def grownWindow (i : Nat) : Str :=
  let g := Grown.grow texts budget ⟨i, i, (textAt texts i).length⟩
  join (str "\n\n") (window texts (g.lo, g.hi + 1))

/-- `_context_window`. -/
def contextWindow (i : Nat) : Str :=
  if (totalLength texts : Int) ≤ budget then join (str "\n\n") texts
  else grownWindow texts budget i

end Grow

/-! ## What it grows to -/

section Maximal

variable {texts : List Str} {budget : Int} {i : Nat} {g : Grown}

theorem totalLength_append (l₁ l₂ : List Str) :
    totalLength (l₁ ++ l₂) = totalLength l₁ + totalLength l₂ := by
  rw [totalLength, List.map_append, List.sum_append]
  rfl

/-- A run with the text to its right. -/
theorem totalLength_window_right {a k : Nat} (ha : a ≤ k) (hk : k < texts.length) :
    totalLength (window texts (a, k + 1)) =
      totalLength (window texts (a, k)) + (textAt texts k).length := by
  have hget : texts[k]? = some (textAt texts k) := by
    rw [textAt, List.getElem?_eq_getElem hk]
    rfl
  rw [window_succ ha hget, totalLength_append]
  rfl

/-- A run with the text to its left. -/
theorem totalLength_window_left {a k : Nat} (hpos : 0 < a) (ha : a < k) (hk : k ≤ texts.length) :
    totalLength (window texts (a - 1, k)) =
      totalLength (window texts (a, k)) + (textAt texts (a - 1)).length := by
  obtain ⟨a, rfl⟩ := Nat.exists_eq_add_one.mpr hpos
  rw [Nat.add_sub_cancel]
  have hone : totalLength (window texts (a, a + 1)) =
      totalLength (window texts (a, a)) + (textAt texts a).length :=
    totalLength_window_right le_rfl (by omega)
  rw [window_append a.le_succ ha.le, totalLength_append, hone, window_self, Nat.add_comm]
  exact congrArg _ (Nat.zero_add _)

theorem window_all : window texts (0, texts.length) = texts := by simp [window]

/-- The loop's invariant: `lo` to `hi` is a run around the chunk, `used` is its length, and
either nothing has been added yet or the budget is kept. -/
structure Grown.Around (texts : List Str) (budget : Int) (i : Nat) (g : Grown) : Prop where
  lo_le : g.lo ≤ i
  le_hi : i ≤ g.hi
  hi_lt : g.hi < texts.length
  used_eq : g.used = totalLength (window texts (g.lo, g.hi + 1))
  fits : g.used = (textAt texts i).length ∨ (g.used : Int) ≤ budget

namespace Grown.Around

theorem start (hi : i < texts.length) :
    Around texts budget i ⟨i, i, (textAt texts i).length⟩ where
  lo_le := le_rfl
  le_hi := le_rfl
  hi_lt := hi
  used_eq := by
    rw [totalLength_window_right le_rfl hi, window_self]
    exact (Nat.zero_add _).symm
  fits := .inl rfl

theorem left (h : Around texts budget i g) : Around texts budget i (g.left texts budget) := by
  obtain ⟨hlo, hhi, hlt, hused, hfits⟩ := h
  by_cases hroom : g.RoomLeft texts budget
  · rw [Grown.left_of_room _ _ _ hroom]
    obtain ⟨hpos, hroom⟩ := hroom
    refine ⟨by simp only; omega, hhi, hlt, ?_, .inr (by exact_mod_cast hroom)⟩
    rw [totalLength_window_left hpos (by omega) hlt, hused]
  · rw [Grown.left_of_not_room _ _ _ hroom]
    exact ⟨hlo, hhi, hlt, hused, hfits⟩

theorem right (h : Around texts budget i g) : Around texts budget i (g.right texts budget) := by
  obtain ⟨hlo, hhi, hlt, hused, hfits⟩ := h
  by_cases hroom : g.RoomRight texts budget
  · rw [Grown.right_of_room _ _ _ hroom]
    obtain ⟨hpos, hroom⟩ := hroom
    have hlt' : g.hi + 1 < texts.length := by omega
    refine ⟨hlo, by simp only; omega, hlt', ?_, .inr (by exact_mod_cast hroom)⟩
    rw [totalLength_window_right (by simp only; omega) hlt', hused]
  · rw [Grown.right_of_not_room _ _ _ hroom]
    exact ⟨hlo, hhi, hlt, hused, hfits⟩

theorem grow (h : Around texts budget i g) : Around texts budget i (g.grow texts budget) := by
  fun_induction Grown.grow texts budget g with
  | case1 g hgrew ih => exact ih h.left.right
  | case2 g hgrew => exact h

end Grown.Around

/-- The loop ends where neither side has room. -/
theorem Grown.not_grew_grow (g : Grown) : ¬ (g.grow texts budget).Grew texts budget := by
  fun_induction Grown.grow texts budget g with
  | case1 g hgrew ih => exact ih
  | case2 g hgrew => exact hgrew

/-- Neither neighbour of the run fits the budget. -/
structure Grown.Full (texts : List Str) (budget : Int) (g : Grown) : Prop where
  left : 0 < g.lo → budget < totalLength (window texts (g.lo - 1, g.hi + 1))
  right : g.hi + 1 < texts.length → budget < totalLength (window texts (g.lo, g.hi + 1 + 1))

theorem Grown.Around.full (h : Around texts budget i g) (hgrew : ¬ g.Grew texts budget) :
    g.Full texts budget := by
  obtain ⟨hleft, hright⟩ := not_or.mp hgrew
  rw [Grown.left_of_not_room _ _ _ hleft] at hright
  obtain ⟨hlo, hhi, hlt, hused, -⟩ := h
  constructor
  · intro hpos
    rw [totalLength_window_left hpos (by omega) hlt, ← hused]
    refine not_le.mp fun hle ↦ hleft ⟨hpos, ?_⟩
    exact_mod_cast hle
  · intro hmore
    rw [totalLength_window_right (by omega) hmore, ← hused]
    refine not_le.mp fun hle ↦ hright ⟨by omega, ?_⟩
    exact_mod_cast hle

/-- A run is no longer than all the texts. -/
theorem totalLength_window_le {a k : Nat} (ha : a ≤ k) (hk : k ≤ texts.length) :
    totalLength (window texts (a, k)) ≤ totalLength texts := by
  have hall : texts =
      window texts (0, a) ++ window texts (a, k) ++ window texts (k, texts.length) := by
    rw [← window_append (Nat.zero_le _) ha, ← window_append (Nat.zero_le _) hk, window_all]
  conv_rhs => rw [hall]
  rw [totalLength_append, totalLength_append]
  omega

/-- If everything fits, the run that neither neighbour fits is everything. -/
theorem Grown.Full.all (h : g.Full texts budget) (hlo : g.lo ≤ g.hi) (hlt : g.hi < texts.length)
    (hfits : (totalLength texts : Int) ≤ budget) : g.lo = 0 ∧ g.hi + 1 = texts.length := by
  constructor
  · by_contra hne
    have hleft := h.left (Nat.pos_of_ne_zero hne)
    have hle : totalLength (window texts (g.lo - 1, g.hi + 1)) ≤ totalLength texts :=
      totalLength_window_le (by omega) hlt
    omega
  · by_contra hne
    have hright := h.right (by omega)
    have hle : totalLength (window texts (g.lo, g.hi + 1 + 1)) ≤ totalLength texts :=
      totalLength_window_le (by omega) (by omega)
    omega

/-- The run that the loop gives. -/
theorem grow_around (budget : Int) (hi : i < texts.length) :
    (Grown.grow texts budget ⟨i, i, (textAt texts i).length⟩).Around texts budget i ∧
      (Grown.grow texts budget ⟨i, i, (textAt texts i).length⟩).Full texts budget :=
  ⟨(Grown.Around.start hi).grow, (Grown.Around.start hi).grow.full (Grown.not_grew_grow _)⟩

end Maximal

/-- `_context_window` gives what the loop alone would give, with the early return or without:
the join of a run around the chunk that keeps the budget, or is the chunk, that no neighbour
can be added to, and that is everything if everything fits. -/
theorem contextWindow_maximal (texts : List Str) (budget : Int) (i : Fin texts.length) :
    contextWindow texts budget i = grownWindow texts budget i ∧
    ∃ lo hi, lo ≤ i.val ∧ i.val < hi ∧ hi ≤ texts.length ∧
      contextWindow texts budget i = join (str "\n\n") (window texts (lo, hi)) ∧
      (totalLength (window texts (lo, hi)) : Int) ≤ max budget (texts.get i).length ∧
      (0 < lo → budget < totalLength (window texts (lo - 1, hi))) ∧
      (hi < texts.length → budget < totalLength (window texts (lo, hi + 1))) ∧
      ((totalLength texts : Int) ≤ budget → lo = 0 ∧ hi = texts.length) := by
  obtain ⟨⟨hlo, hhi, hlt, hused, hfits⟩, hfull⟩ := grow_around budget i.isLt
  have hget : textAt texts i = texts.get i := by
    rw [textAt, List.getElem?_eq_getElem i.isLt]
    rfl
  have hall := hfull.all (hlo.trans hhi) hlt
  have hagree : contextWindow texts budget i = grownWindow texts budget i := by
    rw [contextWindow]
    split
    · next hle =>
        obtain ⟨hzero, hend⟩ := hall hle
        rw [grownWindow, hzero, hend, window_all]
    · rfl
  refine ⟨hagree, _, _, hlo, Nat.lt_succ_of_le hhi, hlt, hagree, ?_, hfull.left, hfull.right, hall⟩
  rw [← hused, ← hget, le_max_iff]
  rcases hfits with hchunk | hbudget
  · exact .inr (by exact_mod_cast hchunk.le)
  · exact .inl hbudget

end Adapta.Datasets
