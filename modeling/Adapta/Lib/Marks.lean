import Mathlib.Data.List.Infix

/-!
# Texts with marks

A list of pieces, each of a kind, is written as one text: before each piece stands the mark of
its kind.  The text has no quotation, so a piece that holds a mark looks like several.  If the
marks do not overlap each other, this is the only way in which two lists can have the same
text: of all lists with a given text, those whose pieces hold no mark are the longest, and there
is at most one of them (`length_le_of_weave_eq`, `eq_of_weave_eq`).
-/

namespace Lib

/-- Marks that do not overlap: what is left of one, after a proper part at its front, neither
starts a mark nor is continued by one. -/
structure Marks (κ α : Type) where
  mark : κ → List α
  ne_nil : ∀ k, mark k ≠ []
  distinct : ∀ k k', mark k <+: mark k' → k = k'
  apart : ∀ k k' d e, mark k = d ++ e → d ≠ [] → e ≠ [] → ¬e <+: mark k' ∧ ¬mark k' <+: e

namespace Marks

variable {κ α : Type} (M : Marks κ α)

/-- The text of some pieces. -/
def weave (l : List (κ × List α)) : List α := l.flatMap fun x ↦ M.mark x.1 ++ x.2

/-- No mark occurs in the text. -/
def Free (s : List α) : Prop := ∀ k, ¬M.mark k <:+: s

variable {M} {k k' : κ} {c c' s s' : List α} {l l' : List (κ × List α)}

@[simp] theorem weave_nil : M.weave [] = [] := rfl

@[simp] theorem weave_cons (x : κ × List α) (l : List (κ × List α)) :
    M.weave (x :: l) = M.mark x.1 ++ (x.2 ++ M.weave l) := by
  rw [weave, List.flatMap_cons, List.append_assoc]
  rfl

@[simp] theorem weave_append (l l' : List (κ × List α)) :
    M.weave (l ++ l') = M.weave l ++ M.weave l' := List.flatMap_append

theorem free_nil : M.Free [] := fun k hk ↦ M.ne_nil k (List.infix_nil.mp hk)

/-! ## Two marks in one text -/

/-- A text that starts with two marks starts with one. -/
theorem mark_unique (h : M.mark k ++ s = M.mark k' ++ s') : k = k' ∧ s = s' := by
  have hk : k = k' := by
    rcases List.prefix_or_prefix_of_prefix (List.prefix_append (M.mark k) s)
      (h ▸ List.prefix_append (M.mark k') s') with hpre | hpre
    · exact M.distinct k k' hpre
    · exact (M.distinct k' k hpre).symm
  subst hk
  exact ⟨rfl, List.append_cancel_left h⟩

/-- No mark begins inside a mark. -/
theorem not_inside {d e : List α} (hmark : M.mark k = d ++ e) (hd : d ≠ []) (he : e ≠ [])
    (h : e ++ s = M.mark k' ++ s') : False := by
  obtain ⟨hno, hno'⟩ := M.apart k k' d e hmark hd he
  rcases List.prefix_or_prefix_of_prefix (List.prefix_append e s)
    (h ▸ List.prefix_append (M.mark k') s') with hpre | hpre
  · exact hno hpre
  · exact hno' hpre

/-- A text that starts in the middle of a mark is not made of pieces. -/
theorem not_inside_weave {d e : List α} (hmark : M.mark k = d ++ e) (hd : d ≠ []) (he : e ≠ [])
    (h : e ++ s = M.weave l) : False := by
  cases l with
  | nil => exact he (List.append_eq_nil_iff.mp h).1
  | cons x l =>
      rw [weave_cons] at h
      exact not_inside hmark hd he h

/-! ## Pieces -/

/-- Pieces whose text starts with a mark start with a piece of its kind. -/
theorem of_weave_eq_mark (h : M.weave l = M.mark k ++ s) :
    ∃ b t, l = (k, b) :: t ∧ b ++ M.weave t = s := by
  cases l with
  | nil => exact absurd (List.append_eq_nil_iff.mp h.symm).1 (M.ne_nil k)
  | cons x t =>
      rw [weave_cons] at h
      obtain ⟨rfl, hs⟩ := mark_unique h
      exact ⟨x.2, t, rfl, hs⟩

/-- A text in pieces, after some text, has no more pieces than another one, and if it has as many
it is the same. -/
def Coarser (c' : List α) (l' : List (κ × List α)) (c : List α) (l : List (κ × List α)) : Prop :=
  l'.length ≤ l.length ∧ (l'.length = l.length → c' = c ∧ l' = l)

/-- The first pieces end at the same place. -/
theorem Coarser.cons {b b' : List α} (h : Coarser b' l' b l) :
    Coarser c ((k, b') :: l') c ((k, b) :: l) := by
  refine ⟨Nat.succ_le_succ h.1, ?_⟩
  intro hlen
  obtain ⟨rfl, rfl⟩ := h.2 (Nat.succ.inj hlen)
  exact ⟨rfl, rfl⟩

/-- The first text goes on behind the other's mark. -/
theorem Coarser.behind {b d : List α} (h : Coarser d l' b l) : Coarser c' l' c ((k, b) :: l) := by
  refine ⟨Nat.le_succ_of_le h.1, ?_⟩
  intro hlen
  exact absurd (hlen ▸ h.1) (Nat.not_succ_le_self _)

/-- A mark that begins before another one lies in the text before it, or overlaps it. -/
theorem not_free_of_weave {a : List α} (ha : a ≠ []) (h : M.weave l' = a ++ (M.mark k ++ s)) :
    ¬M.Free (c ++ a) := by
  intro hfree
  cases l' with
  | nil => exact ha (List.append_eq_nil_iff.mp h.symm).1
  | cons y t =>
      rw [weave_cons] at h
      rcases List.append_eq_append_iff.mp h with ⟨a', rfl, -⟩ | ⟨e, hmark, hrest⟩
      · exact hfree y.1 ⟨c, a', by rw [List.append_assoc]⟩
      · by_cases he : e = []
        · subst he
          rw [List.append_nil] at hmark
          exact hfree y.1 ⟨c, [], by rw [List.append_nil, hmark]⟩
        · exact not_inside hmark ha he hrest.symm

/-- Pieces without marks, after a text without marks, are as fine as any that make the same
whole. -/
theorem coarser (hc : M.Free c) (hl : ∀ x ∈ l, M.Free x.2)
    (h : c' ++ M.weave l' = c ++ M.weave l) : Coarser c' l' c l := by
  induction l generalizing c c' l' with
  | nil =>
      rw [weave_nil, List.append_nil] at h
      cases l' with
      | nil =>
          rw [weave_nil, List.append_nil] at h
          exact ⟨le_rfl, fun _ ↦ ⟨h, rfl⟩⟩
      | cons x l' =>
          rw [weave_cons] at h
          exact absurd ⟨c', x.2 ++ M.weave l', by rw [← h, List.append_assoc]⟩ (hc x.1)
  | cons x l ih =>
      obtain ⟨k, b⟩ := x
      have hb : M.Free b := hl _ List.mem_cons_self
      have hrest : ∀ y ∈ l, M.Free y.2 := fun y hy ↦ hl y (List.mem_cons_of_mem _ hy)
      rw [weave_cons] at h
      -- the first texts end at the same place, or one of them goes on
      rcases List.append_eq_append_iff.mp h with ⟨a, rfl, htail⟩ | ⟨d, rfl, htail⟩
      · by_cases ha : a = []
        · subst ha
          obtain ⟨b', t, rfl, hb'⟩ := of_weave_eq_mark htail
          rw [List.append_nil]
          exact (ih hb hrest hb').cons
        · exact absurd hc (not_free_of_weave ha htail)
      · rcases List.append_eq_append_iff.mp htail with ⟨a', rfl, htail'⟩ | ⟨e, hmark, htail'⟩
        · exact (ih hb hrest htail'.symm).behind
        · by_cases hd : d = []
          · subst hd
            rw [List.nil_append] at hmark
            subst hmark
            obtain ⟨b', t, rfl, hb'⟩ := of_weave_eq_mark htail'
            rw [List.append_nil]
            exact (ih hb hrest hb').cons
          by_cases he : e = []
          · subst he
            have hwhole : [] ++ M.weave l' = b ++ M.weave l := htail'
            exact (ih hb hrest hwhole).behind
          · exact (not_inside_weave hmark hd he htail'.symm).elim

/-- Of the lists with a given text, one without marks in its pieces is the longest. -/
theorem length_le_of_weave_eq (hl : ∀ x ∈ l, M.Free x.2) (h : M.weave l' = M.weave l) :
    l'.length ≤ l.length := by
  have h' : [] ++ M.weave l' = [] ++ M.weave l := h
  exact (coarser free_nil hl h').1

/-- Pieces without marks can be read off their text. -/
theorem eq_of_weave_eq (hl : ∀ x ∈ l, M.Free x.2) (hl' : ∀ x ∈ l', M.Free x.2)
    (h : M.weave l' = M.weave l) : l' = l := by
  have hlen := Nat.le_antisymm (length_le_of_weave_eq hl h) (length_le_of_weave_eq hl' h.symm)
  have h' : [] ++ M.weave l' = [] ++ M.weave l := h
  exact ((coarser free_nil hl h').2 hlen).2

/-- A piece that holds a mark can be written as two. -/
theorem exists_longer {x : κ × List α} (hx : x ∈ l) (hfree : ¬M.Free x.2) :
    ∃ l', M.weave l' = M.weave l ∧ l.length < l'.length := by
  obtain ⟨k, hk⟩ := not_forall_not.mp hfree
  obtain ⟨p, q, hpq⟩ := hk
  obtain ⟨l₁, l₂, rfl⟩ := List.append_of_mem hx
  refine ⟨l₁ ++ (x.1, p) :: (k, q) :: l₂, ?_, ?_⟩
  · simp [← hpq]
  · simp

end Marks

end Lib
