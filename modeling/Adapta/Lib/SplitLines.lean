import Adapta.Lib.Margin

/-!
# Unicode line boundaries

`str.splitlines` cuts a text at every Unicode line boundary, a file that is read line by line
only at `\n`, `\r` and `\r\n`.  A JSON text that is written with `ensure_ascii=False` has no
boundary of the second kind, but it may have three of the first: the next line character and
the line and paragraph separators stand in its strings as they are.  A text that is cut inside
a string cannot be read (`loads_eq_none_of_separator`).
-/

namespace Lib

variable {canon : FloatText → FloatText} {s t : Str} {c : Code}

/-- The characters `str.splitlines` cuts at. -/
def isBreak (c : Code) : Bool :=
  (10 ≤ c.ord && c.ord ≤ 13) || (28 ≤ c.ord && c.ord ≤ 30) || c.ord ∈ [0x85, 0x2028, 0x2029]

/-- A boundary that `json.dumps` leaves as it is. -/
def isSeparator (c : Code) : Bool := c.ord ∈ [0x85, 0x2028, 0x2029]

/-- `str.splitlines`. -/
def splitLines : Str → List Str
  | [] => []
  | .char '\r' :: .char '\n' :: s => [] :: splitLines s
  | c :: s =>
      if isBreak c then [] :: splitLines s
      else
        match splitLines s with
        | [] => [[c]]
        | l :: ls => (c :: l) :: ls

/-- The text of a file, whose line ends all become `\n`. -/
def readText : Str → Str
  | [] => []
  | .char '\r' :: .char '\n' :: s => .char '\n' :: readText s
  | c :: s => (if c = .char '\r' then .char '\n' else c) :: readText s

/-! ## Cutting -/

theorem splitLines_cons (hc : c ≠ .char '\r') (s : Str) :
    splitLines (c :: s) =
      if isBreak c then [] :: splitLines s
      else
        match splitLines s with
        | [] => [[c]]
        | l :: ls => (c :: l) :: ls := by
  rw [splitLines]
  rintro t rfl
  exact absurd rfl hc

/-- A line without boundaries ends at the first one. -/
theorem splitLines_append (hs : ∀ d ∈ s, isBreak d = false) (hc : isBreak c = true)
    (hr : c ≠ .char '\r') : splitLines (s ++ c :: t) = s :: splitLines t := by
  induction s with
  | nil => rw [List.nil_append, splitLines_cons hr, if_pos hc]
  | cons d s ih =>
      have hd := hs d List.mem_cons_self
      have hdr : d ≠ .char '\r' := by
        rintro rfl
        revert hd
        decide
      rw [List.cons_append, splitLines_cons hdr, if_neg (by simp [hd]),
        ih fun e he ↦ hs e (List.mem_cons_of_mem _ he)]

/-- What comes after a line end is cut on its own. -/
theorem splitLines_append_newline (hs : .char '\r' ∉ s) (t : Str) :
    ∃ ls, ls ≠ [] ∧ splitLines (s ++ .char '\n' :: t) = ls ++ splitLines t := by
  induction s with
  | nil =>
      refine ⟨[[]], List.cons_ne_nil _ _, ?_⟩
      rw [List.nil_append, splitLines_cons (by decide), if_pos (by decide)]
      rfl
  | cons d s ih =>
      rw [List.mem_cons, not_or] at hs
      obtain ⟨ls, hne, hcut⟩ := ih hs.2
      rw [List.cons_append, splitLines_cons (Ne.symm hs.1), hcut]
      cases ls with
      | nil => exact absurd rfl hne
      | cons l ls =>
          by_cases hd : isBreak d = true
          · exact ⟨[] :: l :: ls, List.cons_ne_nil _ _, by rw [if_pos hd]; rfl⟩
          · exact ⟨(d :: l) :: ls, List.cons_ne_nil _ _, by rw [if_neg hd]; rfl⟩

/-- A file with one line for each of `ls`, none of which has a boundary. -/
theorem splitLines_unlines {ls : List Str} (h : ∀ l ∈ ls, ∀ c ∈ l, isBreak c = false) :
    splitLines (unlines ls) = ls := by
  induction ls with
  | nil => rfl
  | cons l ls ih =>
      rw [unlines, List.flatMap_cons, List.append_assoc, List.singleton_append,
        splitLines_append (h l List.mem_cons_self) (by decide) (by decide)]
      exact congrArg _ (ih fun l' hl' ↦ h l' (List.mem_cons_of_mem _ hl'))

/-- A line of the file that has a boundary is cut before the first one. -/
theorem mem_splitLines_unlines {ls : List Str} (hr : ∀ l ∈ ls, .char '\r' ∉ l)
    (hs : ∀ d ∈ s, isBreak d = false) (hc : isBreak c = true) (h : s ++ c :: t ∈ ls) :
    s ∈ splitLines (unlines ls) := by
  induction ls with
  | nil => cases h
  | cons l ls ih =>
      have hcons : unlines (l :: ls) = l ++ .char '\n' :: unlines ls := by
        rw [unlines, List.flatMap_cons, List.append_assoc, List.singleton_append]
        rfl
      rw [hcons]
      rcases List.mem_cons.mp h with rfl | h
      · have hcr : c ≠ .char '\r' := by
          rintro rfl
          exact hr _ List.mem_cons_self (List.mem_append_right _ List.mem_cons_self)
        rw [List.append_assoc, List.cons_append, splitLines_append hs hc hcr]
        exact List.mem_cons_self
      · obtain ⟨lines, -, hcut⟩ :=
          splitLines_append_newline (hr l List.mem_cons_self) (unlines ls)
        rw [hcut]
        exact List.mem_append_right _ (ih (fun l' hl' ↦ hr l' (List.mem_cons_of_mem _ hl')) h)

/-- Without carriage returns a file is its text. -/
theorem readText_eq_self (hs : .char '\r' ∉ s) : readText s = s := by
  induction s with
  | nil => rfl
  | cons d s ih =>
      rw [List.mem_cons, not_or] at hs
      rw [readText, if_neg (Ne.symm hs.1), ih hs.2]
      rintro t rfl
      exact absurd rfl hs.1

/-! ## Written values -/

theorem isBreak_of_isSeparator (hc : isSeparator c = true) : isBreak c = true := by
  rw [isBreak, Bool.or_eq_true]
  exact Or.inr hc

/-- The boundaries that `json.dumps` does not escape are the separators. -/
theorem isBreak_eq_isSeparator (hc : 0x20 ≤ c.ord) : isBreak c = isSeparator c := by
  have hlow : ((10 ≤ c.ord && c.ord ≤ 13) || (28 ≤ c.ord && c.ord ≤ 30)) = false := by
    simp only [Bool.or_eq_false_iff, Bool.and_eq_false_iff, decide_eq_false_iff_not]
    omega
  rw [isBreak, hlow, Bool.false_or, isSeparator]

theorem isBreak_of_mem_dumps {ascii : Bool} {v : Json} (hc : c ∈ dumps ascii v) :
    isBreak c = isSeparator c :=
  isBreak_eq_isSeparator (ord_ge_dumps v c hc)

/-- A separator is white space for `str.strip`, and not for JSON. -/
theorem isSpace_of_isSeparator (hc : isSeparator c = true) :
    isSpace c = true ∧ c.blank = false := by
  simp only [isSeparator, List.mem_cons, List.not_mem_nil, or_false, decide_eq_true_eq] at hc
  refine ⟨by simp [isSpace]; omega, ?_⟩
  cases c with
  | surrogate n => rfl
  | char x =>
      by_contra hblank
      rw [Bool.not_eq_false, Code.blank] at hblank
      have hx : (Code.char x).ord = x.toNat := rfl
      simp only [isBlank] at hblank
      split at hblank
      all_goals first | (revert hc; decide) | cases hblank

/-- A separator is written as it is. -/
theorem mem_quote_of_isSeparator (hc : isSeparator c = true) (hs : c ∈ s) : c ∈ quote false s := by
  have hshort : shortEscape c = none := by
    cases h : shortEscape c with
    | none => rfl
    | some e =>
        simp only [shortEscape] at h
        split at h
        all_goals first | (exfalso; revert hc; decide) | cases h
  have hge : ¬c.ord < 0x20 := by
    simp only [isSeparator, List.mem_cons, List.not_mem_nil, or_false, decide_eq_true_eq] at hc
    omega
  have hescape : c ∈ escape false c := by simp [escape, hshort, hge]
  rw [quote, List.cons_append]
  exact List.mem_cons_of_mem _ (List.mem_append_left _ (List.mem_flatMap.mpr ⟨c, hs, hescape⟩))

theorem not_mem_of_isSeparator (hc : isSeparator c = true)
    (hs : ∀ d ∈ s, isSeparator d = false) : c ∉ s := by
  intro h
  rw [hs c h] at hc
  cases hc

theorem eq_of_mem_escape {d : Code} (hc : isSeparator c = true) (h : c ∈ escape false d) :
    c = d := by
  have hno : ∀ x : Code, isSeparator x = false → c ≠ x := by
    rintro x hx rfl
    rw [hc] at hx
    cases hx
  have hhex : ∀ m, c ≠ .char (hexDigit (m % 16)) := by
    intro m
    have hall : ∀ d < 16, isSeparator (.char (hexDigit d)) = false := by decide
    exact hno _ (hall _ (Nat.mod_lt _ (by decide)))
  simp only [escape] at h
  split at h
  · next e he =>
      rcases List.mem_cons.mp h with h | h
      · exact absurd h (hno _ (by decide))
      · simp only [shortEscape] at he
        split at he <;> cases he <;> exact absurd (List.mem_singleton.mp h) (hno _ (by decide))
  · split at h
    · simp only [unitText, List.mem_cons, List.not_mem_nil, or_false] at h
      rcases h with h | h | h | h | h | h
      · exact absurd h (hno _ (by decide))
      · exact absurd h (hno _ (by decide))
      all_goals exact absurd h (hhex _)
    · exact List.mem_singleton.mp h

/-- A separator in a string that is written was there before. -/
theorem mem_of_mem_quote (hc : isSeparator c = true) (h : c ∈ quote false s) : c ∈ s := by
  have hquote : c ≠ .char '"' := by
    rintro rfl
    revert hc
    decide
  simp only [quote, List.mem_cons, List.mem_append, List.mem_flatMap, List.not_mem_nil,
    or_false, List.cons_append] at h
  rcases h with h | ⟨d, hd, h⟩ | h
  · exact absurd h hquote
  · exact eq_of_mem_escape hc h ▸ hd
  · exact absurd h hquote

theorem mem_dumpsFields {l : Fields} {k : Str} (hc : isSeparator c = true) (hl : (k, .str s) ∈ l)
    (hs : c ∈ s) : c ∈ dumpsFields false l := by
  induction l with
  | nil => cases hl
  | cons y l ih =>
      obtain ⟨k', v⟩ := y
      rw [dumpsFields]
      rcases List.mem_cons.mp hl with heq | hl
      · cases heq
        exact List.mem_append_left _ (List.mem_append_right _ (mem_quote_of_isSeparator hc hs))
      · exact List.mem_append_right _ (ih hl)

/-- So is one in a field of an object. -/
theorem mem_dumps_obj {l : Fields} {k : Str} (hc : isSeparator c = true) (hl : (k, .str s) ∈ l)
    (hs : c ∈ s) : c ∈ dumps false (.obj l) := by
  cases l with
  | nil => cases hl
  | cons y l =>
      obtain ⟨k', v⟩ := y
      rw [dumps, List.cons_append]
      apply List.mem_cons_of_mem
      apply List.mem_append_left
      rcases List.mem_cons.mp hl with heq | hl
      · cases heq
        exact List.mem_append_left _ (List.mem_append_right _ (mem_quote_of_isSeparator hc hs))
      · exact List.mem_append_right _ (mem_dumpsFields hc hl hs)

theorem mem_of_mem_dumpsFields {l : Fields} (hc : isSeparator c = true)
    (h : c ∈ dumpsFields false l) : ∃ x ∈ l, c ∈ x.1 ∨ c ∈ dumps false x.2 := by
  induction l with
  | nil => cases h
  | cons y l ih =>
      obtain ⟨k, v⟩ := y
      simp only [dumpsFields, List.mem_append] at h
      rcases h with (((h | h) | h) | h) | h
      · exact absurd h (not_mem_of_isSeparator hc (by decide))
      · exact ⟨(k, v), List.mem_cons_self, .inl (mem_of_mem_quote hc h)⟩
      · exact absurd h (not_mem_of_isSeparator hc (by decide))
      · exact ⟨(k, v), List.mem_cons_self, .inr h⟩
      · obtain ⟨x, hx, h⟩ := ih h
        exact ⟨x, List.mem_cons_of_mem _ hx, h⟩

/-- A separator in an object that is written stands in one of its fields. -/
theorem mem_of_mem_dumps_obj {l : Fields} (hc : isSeparator c = true)
    (h : c ∈ dumps false (.obj l)) : ∃ x ∈ l, c ∈ x.1 ∨ c ∈ dumps false x.2 := by
  have hbrace : c ∉ str "\x7b\x7d" := not_mem_of_isSeparator hc (by decide)
  cases l with
  | nil => exact absurd h hbrace
  | cons y l =>
      obtain ⟨k, v⟩ := y
      simp only [dumps, List.cons_append, List.mem_cons, List.mem_append, List.not_mem_nil,
        or_false] at h
      rcases h with rfl | (((h | h) | h) | h) | rfl
      · exact absurd (by decide) hbrace
      · exact ⟨(k, v), List.mem_cons_self, .inl (mem_of_mem_quote hc h)⟩
      · exact absurd h (not_mem_of_isSeparator hc (by decide))
      · exact ⟨(k, v), List.mem_cons_self, .inr h⟩
      · obtain ⟨x, hx, h⟩ := mem_of_mem_dumpsFields hc h
        exact ⟨x, List.mem_cons_of_mem _ hx, h⟩
      · exact absurd (by decide) hbrace

/-- A text with a boundary, up to the first one. -/
theorem exists_first_break (h : ∃ d ∈ s, isBreak d = true) :
    ∃ p d r, s = p ++ d :: r ∧ (∀ e ∈ p, isBreak e = false) ∧ isBreak d = true := by
  induction s with
  | nil =>
      obtain ⟨d, hd, -⟩ := h
      cases hd
  | cons e s ih =>
      by_cases he : isBreak e = true
      · exact ⟨[], e, s, rfl, by rintro e ⟨⟩, he⟩
      · obtain ⟨d, hd, hbreak⟩ := h
        rcases List.mem_cons.mp hd with rfl | hd
        · exact absurd hbreak he
        obtain ⟨p, d, r, rfl, hp, hbreak⟩ := ih ⟨d, hd, hbreak⟩
        refine ⟨e :: p, d, r, rfl, ?_, hbreak⟩
        intro e' he'
        rcases List.mem_cons.mp he' with rfl | he'
        · exact Bool.eq_false_iff.mpr he
        · exact hp e' he'

/-- A text that is cut before a separator cannot be read: the separator stood in a string. -/
theorem loads_eq_none_of_separator {v : Json} (hc : isSeparator c = true)
    (h : loads canon (s ++ c :: t) = some v) : loads canon s = none := by
  by_contra hsome
  obtain ⟨w, hw⟩ := Option.ne_none_iff_exists'.mp hsome
  obtain ⟨toks, hlex, -⟩ := Option.bind_eq_some_iff.mp hw
  obtain ⟨st, hrun, hfin⟩ := Option.bind_eq_some_iff.mp hlex
  obtain ⟨toks', hlex', -⟩ := Option.bind_eq_some_iff.mp h
  obtain ⟨st', hrun', -⟩ := Option.bind_eq_some_iff.mp hlex'
  rw [List.foldlM_append, hrun, Option.bind_eq_bind, Option.bind_some, List.foldlM_cons] at hrun'
  obtain ⟨st₁, hstep, -⟩ := Option.bind_eq_some_iff.mp hrun'
  obtain ⟨hspace, hblank⟩ := isSpace_of_isSeparator hc
  cases c with
  | surrogate n =>
      simp only [isSeparator, Code.ord, List.mem_cons, List.not_mem_nil, or_false,
        decide_eq_true_eq] at hc
      omega
  | char x =>
      have hword : isWord x = false := by
        by_contra hw
        rw [Bool.not_eq_false] at hw
        rw [not_isSpace_of_isWord hw] at hspace
        cases hspace
      rw [Lex.step_of_finish hfin hword] at hstep
      rw [(Lex.start_space hspace hstep).2] at hblank
      cases hblank

end Lib
