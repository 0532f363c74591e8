import Adapta.Lib.RoundTrip

/-!
# Strings through ASCII

A string that is written with `ensure_ascii` is read back as it was, but for two surrogates
that stand next to each other and make a pair: their escapes are read as one character.
-/

namespace Lib

/-- The character of a pair of surrogates. -/
def pairCode (h l : Fin 0x800) : Code := .char (Char.ofNat (0x10000 + h * 0x400 + (l - 0x400)))

/-- Each pair of surrogates as one character. -/
def mergePairs : Str → Str
  | .surrogate h :: .surrogate l :: s =>
      if h.val < 0x400 ∧ 0x400 ≤ l.val then pairCode h l :: mergePairs s
      else .surrogate h :: mergePairs (.surrogate l :: s)
  | c :: s => c :: mergePairs s
  | [] => []

/-- A string begins with a pair of surrogates, with two that are no pair, or otherwise. -/
@[elab_as_elim]
theorem pairs_induction {motive : Str → Prop}
    (pair : ∀ (h l : Fin 0x800) (s : Str), h.val < 0x400 ∧ 0x400 ≤ l.val → motive s →
      motive (.surrogate h :: .surrogate l :: s))
    (apart : ∀ (h l : Fin 0x800) (s : Str), ¬(h.val < 0x400 ∧ 0x400 ≤ l.val) →
      motive (.surrogate l :: s) → motive (.surrogate h :: .surrogate l :: s))
    (other : ∀ (c : Code) (s : Str),
      (∀ (h l : Fin 0x800) (t : Str), c = .surrogate h → s = .surrogate l :: t → False) →
        motive s → motive (c :: s))
    (nil : motive []) (s : Str) : motive s := by
  fun_induction mergePairs s with
  | case1 h l s hpair ih => exact pair h l s hpair ih
  | case2 h l s hpair ih => exact apart h l s hpair ih
  | case3 c s hne ih => exact other c s hne ih
  | case4 => exact nil

section

variable {h l : Fin 0x800} {c : Code} {s : Str}

theorem mergePairs_pair (hpair : h.val < 0x400 ∧ 0x400 ≤ l.val) :
    mergePairs (.surrogate h :: .surrogate l :: s) = pairCode h l :: mergePairs s := by
  rw [mergePairs, if_pos hpair]

theorem mergePairs_apart (hpair : ¬(h.val < 0x400 ∧ 0x400 ≤ l.val)) :
    mergePairs (.surrogate h :: .surrogate l :: s) =
      .surrogate h :: mergePairs (.surrogate l :: s) := by
  rw [mergePairs, if_neg hpair]

theorem mergePairs_other
    (hne : ∀ (h l : Fin 0x800) (t : Str), c = .surrogate h → s = .surrogate l :: t → False) :
    mergePairs (c :: s) = c :: mergePairs s := by
  rw [mergePairs]
  exact hne

end

/-- No two surrogates make a pair. -/
def Unpaired (s : Str) : Prop :=
  ∀ h l : Fin 0x800, h.val < 0x400 → 0x400 ≤ l.val → ¬ [.surrogate h, .surrogate l] <:+: s

theorem unpaired_of_encodable {s : Str} (hs : encodable s = true) : Unpaired s := by
  rintro h l - - ⟨a, b, hab⟩
  have hmem : .surrogate h ∈ s := by
    rw [← hab]
    simp
  cases List.all_eq_true.mp hs _ hmem

/-! ## Reading -/

/-- An escape that does not begin a pair. -/
theorem join_unit {n : Nat} (hn : ¬ (0xD800 ≤ n ∧ n < 0xDC00)) (l : List Part) :
    join (.unit n :: l) = ofUnit n :: join l := by
  cases l with
  | nil => rfl
  | cons p l =>
      cases p with
      | raw c => rfl
      | unit m => rw [join, if_neg fun h ↦ hn ⟨h.1, h.2.1⟩]

theorem ofUnit_char {c : Char} (hc : c.toNat < 0x10000) : ofUnit c.toNat = .char c := by
  have hvalid := c.valid
  have hnot : ¬ (0xD800 ≤ c.toNat ∧ c.toNat < 0xE000) := by
    rintro ⟨hlo, hhi⟩
    rcases hvalid with h | h
    · have h : c.toNat < 0xD800 := h
      omega
    · have h : 0xDFFF < c.toNat := h.1
      omega
  rw [ofUnit, dif_neg hnot, Char.ofNat_toNat]

theorem ofUnit_surrogate (k : Fin 0x800) : ofUnit (0xD800 + k) = .surrogate k := by
  have hk := k.isLt
  rw [ofUnit, dif_pos ⟨by omega, by omega⟩]
  simp

theorem parts_surrogate (k : Fin 0x800) : parts true (.surrogate k) = [.unit (0xD800 + k)] := by
  have hk := k.isLt
  have hord : (Code.surrogate k).ord = 0xD800 + k := rfl
  have hshort : (shortEscape (.surrogate k)).isSome = false := rfl
  simp only [parts, hshort, hord, Bool.false_eq_true, if_false, Bool.true_and, decide_eq_true_eq]
  rw [if_neg (by omega), if_pos (by omega), if_pos (by omega)]

/-- After an escape that does not end a pair. -/
theorem join_surrogate_unit (k : Fin 0x800) {n : Nat} (hn : ¬ (0xDC00 ≤ n ∧ n < 0xE000))
    (l : List Part) :
    join (.unit (0xD800 + k) :: .unit n :: l) = .surrogate k :: join (.unit n :: l) := by
  rw [join, if_neg fun h ↦ hn ⟨h.2.2.1, h.2.2.2⟩, ofUnit_surrogate]

/-- What is read of the parts of a character, by itself and after a surrogate. -/
structure ReadsChar (c : Char) (l : List Part) : Prop where
  alone : ∀ r, join (l ++ r) = .char c :: join r
  after : ∀ (k : Fin 0x800) r, join (.unit (0xD800 + k) :: (l ++ r)) = .surrogate k :: join (l ++ r)

theorem readsChar_raw (c : Char) : ReadsChar c [.raw (.char c)] where
  alone := fun _ ↦ rfl
  after := by
    intro k r
    show ofUnit (0xD800 + k) :: _ = _
    rw [ofUnit_surrogate]
    rfl

theorem readsChar_unit {c : Char} (hc : c.toNat < 0x10000) : ReadsChar c [.unit c.toNat] := by
  have hnot : ¬ (0xD800 ≤ c.toNat ∧ c.toNat < 0xE000) := by
    rintro ⟨hlo, hhi⟩
    rcases c.valid with h | h
    · have h : c.toNat < 0xD800 := h
      omega
    · have h : 0xDFFF < c.toNat := h.1
      omega
  constructor
  · intro r
    rw [List.singleton_append, join_unit (by omega), ofUnit_char hc]
  · intro k r
    exact join_surrogate_unit k (by omega) r

theorem readsChar_pair {c : Char} (hc : 0x10000 ≤ c.toNat) :
    ReadsChar c [.unit (0xD800 + (c.toNat - 0x10000) / 0x400),
      .unit (0xDC00 + (c.toNat - 0x10000) % 0x400)] := by
  have hlt : c.toNat < 0x110000 := (Code.char c).ord_lt
  constructor
  · intro r
    have hsum : 0x10000 + (0xD800 + (c.toNat - 0x10000) / 0x400 - 0xD800) * 0x400 +
        (0xDC00 + (c.toNat - 0x10000) % 0x400 - 0xDC00) = c.toNat := by omega
    show join (.unit _ :: .unit _ :: r) = _
    rw [join, if_pos (by omega), hsum, Char.ofNat_toNat]
  · intro k r
    exact join_surrogate_unit k (by omega) _

theorem readsChar_parts (c : Char) : ReadsChar c (parts true (.char c)) := by
  have hord : (Code.char c).ord = c.toNat := rfl
  simp only [parts, hord, Bool.true_and, decide_eq_true_eq]
  split
  · exact readsChar_raw c
  split
  · exact readsChar_unit (by omega)
  split
  · split
    · next hbmp => exact readsChar_unit hbmp
    · exact readsChar_pair (by omega)
  · exact readsChar_raw c

/-- Reading merges the pairs. -/
theorem reloadStr_true (s : Str) : reloadStr true s = mergePairs s := by
  rw [reloadStr]
  induction s using pairs_induction with
  | pair h l s hpair ih =>
      have hl := l.isLt
      rw [mergePairs_pair hpair]
      rw [List.flatMap_cons, List.flatMap_cons, parts_surrogate, parts_surrogate]
      show join (.unit (0xD800 + h) :: .unit (0xD800 + l) :: s.flatMap (parts true)) = _
      have hval : 0x10000 + (0xD800 + h.val - 0xD800) * 0x400 + (0xD800 + l.val - 0xDC00) =
          0x10000 + h.val * 0x400 + (l.val - 0x400) := by omega
      rw [join, if_pos (by omega), ih, pairCode, hval]
  | apart h l s hpair ih =>
      rw [mergePairs_apart hpair]
      rw [List.flatMap_cons, parts_surrogate] at ih
      rw [List.flatMap_cons, List.flatMap_cons, parts_surrogate, parts_surrogate]
      show join (.unit (0xD800 + h) :: .unit (0xD800 + l) :: s.flatMap (parts true)) = _
      rw [join, if_neg (by omega), ofUnit_surrogate]
      exact congrArg _ ih
  | other c s hne ih =>
      rw [mergePairs_other hne, List.flatMap_cons]
      cases c with
      | char c => rw [(readsChar_parts c).alone, ih]
      | surrogate k =>
          rw [parts_surrogate, ← ih]
          cases s with
          | nil =>
              show [ofUnit (0xD800 + k)] = _
              rw [ofUnit_surrogate]
              rfl
          | cons d s =>
              cases d with
              | char c => exact (readsChar_parts c).after k _
              | surrogate l => exact absurd rfl (hne k l s rfl)
  | nil => rfl

/-! ## What it leaves -/

theorem mergePairs_eq_self {s : Str} (hs : Unpaired s) : mergePairs s = s := by
  induction s using pairs_induction with
  | pair h l s hpair ih =>
      exact absurd (List.prefix_append [Code.surrogate h, .surrogate l] s).isInfix
        (hs h l hpair.1 hpair.2)
  | apart h l s hpair ih =>
      rw [mergePairs_apart hpair, ih fun h' l' hh hl hin ↦ hs h' l' hh hl (List.infix_cons hin)]
  | other c s hne ih =>
      rw [mergePairs_other hne, ih fun h' l' hh hl hin ↦ hs h' l' hh hl (List.infix_cons hin)]
  | nil => rfl

/-- The first code point is the same or the character of a pair. -/
theorem head?_mergePairs (s : Str) :
    (mergePairs s).head? = s.head? ∨ ∃ c, (mergePairs s).head? = some (.char c) := by
  induction s using pairs_induction with
  | pair h l s hpair =>
      rw [mergePairs_pair hpair]
      exact .inr ⟨_, rfl⟩
  | apart h l s hpair =>
      rw [mergePairs_apart hpair]
      exact .inl rfl
  | other c s hne =>
      rw [mergePairs_other hne]
      exact .inl rfl
  | nil => exact .inl rfl

theorem unpaired_mergePairs (s : Str) : Unpaired (mergePairs s) := by
  intro h l hh hl
  induction s using pairs_induction with
  | pair h' l' s hpair ih =>
      rw [mergePairs_pair hpair, List.infix_cons_iff, not_or]
      refine ⟨?_, ih⟩
      rw [List.cons_prefix_cons]
      exact fun hin ↦ nomatch hin.1
  | apart h' l' s hpair ih =>
      rw [mergePairs_apart hpair, List.infix_cons_iff, not_or]
      refine ⟨?_, ih⟩
      rw [List.cons_prefix_cons]
      rintro ⟨heq, t, ht⟩
      cases heq
      rcases head?_mergePairs (.surrogate l' :: s) with hsame | ⟨c, hc⟩
      · rw [← ht] at hsame
        cases hsame
        exact hpair ⟨hh, hl⟩
      · rw [← ht] at hc
        cases hc
  | other c s hne ih =>
      rw [mergePairs_other hne, List.infix_cons_iff, not_or]
      refine ⟨?_, ih⟩
      rw [List.cons_prefix_cons]
      rintro ⟨rfl, t, ht⟩
      rcases head?_mergePairs s with hsame | ⟨c, hc⟩
      · rw [← ht] at hsame
        cases s with
        | nil => cases hsame
        | cons d s =>
            cases hsame
            exact hne h l s rfl rfl
      · rw [← ht] at hc
        cases hc
  | nil =>
      rw [mergePairs, List.infix_nil]
      exact List.cons_ne_nil _ _

theorem ord_pairCode {h l : Fin 0x800} (hh : h.val < 0x400) : 0x10000 ≤ (pairCode h l).ord := by
  have hl := l.isLt
  have hvalid : (0x10000 + h.val * 0x400 + (l.val - 0x400)).isValidChar := .inr ⟨by omega, by omega⟩
  have hval : (pairCode h l).ord = 0x10000 + h.val * 0x400 + (l.val - 0x400) := by
    rw [pairCode, Char.ofNat, dif_pos hvalid]
    rfl
  omega

/-- A word of characters below the pairs that begins what is left began the string. -/
theorem isPrefix_of_mergePairs {p : Str} (hp : ∀ c ∈ p, c.ord < 0x10000) {s : Str}
    (h : p <+: mergePairs s) : p <+: s := by
  induction p generalizing s with
  | nil => exact List.nil_prefix
  | cons c p ih =>
      have hp' : ∀ d ∈ p, d.ord < 0x10000 := fun d hd ↦ hp d (List.mem_cons_of_mem _ hd)
      revert h
      induction s using pairs_induction with
      | pair h' l' s hpair =>
          intro h
          rw [mergePairs_pair hpair] at h
          have hc := hp c List.mem_cons_self
          rw [(List.cons_prefix_cons.mp h).1] at hc
          have hpair := ord_pairCode (l := l') hpair.1
          omega
      | apart h' l' s hpair =>
          intro h
          rw [mergePairs_apart hpair] at h
          obtain ⟨rfl, hrest⟩ := List.cons_prefix_cons.mp h
          exact List.cons_prefix_cons.mpr ⟨rfl, ih hp' hrest⟩
      | other d s hne =>
          intro h
          rw [mergePairs_other hne] at h
          obtain ⟨rfl, hrest⟩ := List.cons_prefix_cons.mp h
          exact List.cons_prefix_cons.mpr ⟨rfl, ih hp' hrest⟩
      | nil => exact id

/-- Such a word that stands in what is left stood in the string. -/
theorem isInfix_of_mergePairs {p : Str} (hp : ∀ c ∈ p, c.ord < 0x10000) {s : Str}
    (h : p <:+: mergePairs s) : p <:+: s := by
  revert h
  induction s using pairs_induction with
  | pair h' l' s hpair ih =>
      intro h
      rw [mergePairs_pair hpair] at h
      rcases List.infix_cons_iff.mp h with hfront | hin
      · rw [← mergePairs_pair hpair] at hfront
        exact (isPrefix_of_mergePairs hp hfront).isInfix
      · exact List.infix_cons (List.infix_cons (ih hin))
  | apart h' l' s hpair ih =>
      intro h
      rw [mergePairs_apart hpair] at h
      rcases List.infix_cons_iff.mp h with hfront | hin
      · rw [← mergePairs_apart hpair] at hfront
        exact (isPrefix_of_mergePairs hp hfront).isInfix
      · exact List.infix_cons (ih hin)
  | other c s hne ih =>
      intro h
      rw [mergePairs_other hne] at h
      rcases List.infix_cons_iff.mp h with hfront | hin
      · rw [← mergePairs_other hne] at hfront
        exact (isPrefix_of_mergePairs hp hfront).isInfix
      · exact List.infix_cons (ih hin)
  | nil => exact id

end Lib
