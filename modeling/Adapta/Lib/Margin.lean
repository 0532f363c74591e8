import Adapta.Lib.RoundTrip

/-!
# The margin of a text

`str.strip` takes every Unicode white space off the ends of a text, while JSON allows four
characters between its tokens.  So a text that can be read when it is stripped can be read
as it stands exactly if its margin, what `strip` takes off, holds only these four.
-/

namespace Lib

variable {canon : FloatText → FloatText} {toks : List Token} {s t : Str} {c : Code}

/-- What `strip` takes off a text. -/
def margin (s : Str) : Str := s.takeWhile isSpace ++ (s.dropWhile isSpace).rtakeWhile isSpace

theorem takeWhile_strip_rtakeWhile (s : Str) :
    s.takeWhile isSpace ++ (strip s ++ (s.dropWhile isSpace).rtakeWhile isSpace) = s := by
  have hright : strip s ++ (s.dropWhile isSpace).rtakeWhile isSpace = s.dropWhile isSpace := by
    rw [strip, List.rdropWhile, List.rtakeWhile, ← List.reverse_append,
      List.takeWhile_append_dropWhile, List.reverse_reverse]
  rw [hright, List.takeWhile_append_dropWhile]

/-! ## Blanks at the ends -/

theorem Code.not_isWord_of_blank {c : Char} (hc : (Code.char c).blank = true) :
    isWord c = false := by
  by_contra hw
  rw [Bool.not_eq_false] at hw
  rw [Code.blank, not_isBlank_of_isWord hw] at hc
  cases hc

theorem Lex.start_blank (hc : c.blank = true) : Lex.start toks c = some (toks, .idle) := by
  cases c with
  | surrogate n => cases hc
  | char c => exact if_pos hc

theorem lex_blank_append (hs : ∀ c ∈ s, c.blank = true) : lex canon (s ++ t) = lex canon t := by
  induction s with
  | nil => rfl
  | cons c s ih =>
      have hstep : Lex.step canon ([], .idle) c = some ([], .idle) :=
        Lex.start_blank (hs c List.mem_cons_self)
      rw [← ih fun d hd ↦ hs d (List.mem_cons_of_mem _ hd), lex, List.cons_append,
        List.foldlM_cons, hstep]
      rfl

theorem lex_append_blank (h : lex canon s = some toks) (ht : ∀ c ∈ t, c.blank = true) :
    lex canon (s ++ t) = some toks := by
  induction t using List.reverseRecOn with
  | nil => rwa [List.append_nil]
  | append_singleton t c ih =>
      have hread := ih fun d hd ↦ ht d (List.mem_append_left _ hd)
      have hc := ht c (List.mem_append_right _ List.mem_cons_self)
      cases c with
      | surrogate n => cases hc
      | char c =>
          obtain ⟨st, hrun, hf⟩ := Option.bind_eq_some_iff.mp hread
          have hstep : Lex.step canon st (.char c) = some (toks, .idle) := by
            rw [Lex.step_of_finish hf (Code.not_isWord_of_blank hc), Lex.start_blank hc]
          rw [lex, ← List.append_assoc, List.foldlM_append, hrun]
          simp [hstep, Lex.finish]

/-! ## White space at the ends -/

theorem blank_of_lex_append (hs : ∀ c ∈ s, isSpace c = true) (h : lex canon (s ++ t) = some toks) :
    ∀ c ∈ s, c.blank = true := by
  induction s with
  | nil => exact fun c hc ↦ absurd hc List.not_mem_nil
  | cons c s ih =>
      rw [List.cons_append, lex, List.foldlM_cons] at h
      obtain ⟨st, hrun, hf⟩ := Option.bind_eq_some_iff.mp h
      obtain ⟨st₁, hstep, hrun⟩ := Option.bind_eq_some_iff.mp hrun
      obtain ⟨rfl, hblank⟩ := Lex.start_space (hs c List.mem_cons_self) hstep
      have hrest : lex canon (s ++ t) = some toks := by
        rw [lex, hrun]
        exact hf
      intro d hd
      rcases List.mem_cons.mp hd with rfl | hd
      · exact hblank
      · exact ih (fun e he ↦ hs e (List.mem_cons_of_mem _ he)) hrest d hd

theorem blank_of_append_lex (ht : ∀ c ∈ t, isSpace c = true) (h : lex canon (s ++ t) = some toks) :
    ∀ c ∈ t, c.blank = true := by
  induction t using List.reverseRecOn with
  | nil => exact fun c hc ↦ absurd hc List.not_mem_nil
  | append_singleton t c ih =>
      rw [← List.append_assoc, lex, List.foldlM_append] at h
      obtain ⟨st', hrun, hf⟩ := Option.bind_eq_some_iff.mp h
      obtain ⟨st, hrun, hstep⟩ := Option.bind_eq_some_iff.mp hrun
      have hc := ht c (List.mem_append_right _ List.mem_cons_self)
      obtain ⟨hfin, hblank⟩ := Lex.finish_of_space hc (by simpa using hstep) hf
      have hrest : lex canon (s ++ t) = some toks := by
        rw [lex, hrun]
        exact hfin
      intro d hd
      rcases List.mem_append.mp hd with hd | hd
      · exact ih (fun e he ↦ ht e (List.mem_append_left _ he)) hrest d hd
      · rw [List.mem_singleton.mp hd]
        exact hblank

/-! ## Reading with the margin -/

theorem blank_margin_of_lex (h : lex canon s = some toks) : ∀ c ∈ margin s, c.blank = true := by
  intro c hc
  rcases List.mem_append.mp hc with hc | hc
  · rw [← List.takeWhile_append_dropWhile (p := isSpace) (l := s)] at h
    exact blank_of_lex_append (fun d hd ↦ List.mem_takeWhile_imp hd) h c hc
  · rw [← takeWhile_strip_rtakeWhile s, ← List.append_assoc] at h
    exact blank_of_append_lex (fun d hd ↦ List.mem_rtakeWhile_imp hd) h c hc

theorem lex_of_strip (h : lex canon (strip s) = some toks)
    (hs : ∀ c ∈ margin s, c.blank = true) : lex canon s = some toks := by
  rw [← takeWhile_strip_rtakeWhile s, lex_blank_append fun c hc ↦ hs c (List.mem_append_left _ hc)]
  exact lex_append_blank h fun c hc ↦ hs c (List.mem_append_right _ hc)

/-- A text can be read as it stands if and only if it can be read stripped and its margin is
blank. -/
theorem loads_eq_some_iff {v : Json} :
    loads canon s = some v ↔
      loads canon (strip s) = some v ∧ ∀ c ∈ margin s, c.blank = true := by
  constructor
  · intro h
    obtain ⟨toks, hlex, -⟩ := Option.bind_eq_some_iff.mp h
    exact ⟨loads_strip h, blank_margin_of_lex hlex⟩
  · rintro ⟨h, hs⟩
    obtain ⟨toks, hlex, hread⟩ := Option.bind_eq_some_iff.mp h
    rw [loads, lex_of_strip hlex hs]
    exact hread

end Lib
