import Adapta.Datasets.Synthesis
import Adapta.Lib.Surrogates

/-!
# Code fences in a reply

`re.sub` removes every code fence of a reply, wherever it stands, also inside of the strings
of a JSON object.  It commutes with the writing of JSON, since no character of a fence is
escaped, and what it leaves has no fence.
-/

namespace Adapta.Extraction

open Lib
open Datasets (dropFences)

/-! ## One fence at a time -/

def fence : Str := [.char '\x60', .char '\x60', .char '\x60']

def jsonWord : Str := [.char 'j', .char 's', .char 'o', .char 'n']

/-- A character that a fence may consist of. -/
def FenceChar (c : Code) : Prop := c ∈ fence ∨ c ∈ jsonWord

instance : DecidablePred FenceChar := fun _ ↦ inferInstanceAs (Decidable (_ ∨ _))

@[simp] theorem dropFences_nil : dropFences [] = [] := by simp [dropFences]

@[simp] theorem dropFences_json (s : Str) :
    dropFences (fence ++ (jsonWord ++ s)) = dropFences s := by
  simp [fence, jsonWord, dropFences]

theorem dropFences_fence {s : Str} (h : ¬ jsonWord <+: s) :
    dropFences (fence ++ s) = dropFences s := by
  simp only [fence, List.cons_append, List.nil_append]
  rw [dropFences]
  intro s' hs'
  exact h ⟨s', hs'.symm⟩

theorem dropFences_cons {c : Code} {s : Str} (h : ¬ fence <+: c :: s) :
    dropFences (c :: s) = c :: dropFences s := by
  rw [dropFences]
  · rintro s' rfl rfl
    exact h ⟨_, rfl⟩
  · rintro s' rfl rfl
    exact h ⟨_, rfl⟩

/-- Induction along the matches of the pattern. -/
theorem fenceInduction {P : Str → Prop} (nil : P [])
    (json : ∀ s, P s → P (fence ++ (jsonWord ++ s)))
    (bare : ∀ s, ¬ jsonWord <+: s → P s → P (fence ++ s))
    (cons : ∀ c s, ¬ fence <+: c :: s → P s → P (c :: s)) (s : Str) : P s := by
  induction hn : s.length using Nat.strong_induction_on generalizing s with
  | _ n ih =>
      subst hn
      by_cases hfence : fence <+: s
      · obtain ⟨t, rfl⟩ := hfence
        by_cases hjson : jsonWord <+: t
        · obtain ⟨t, rfl⟩ := hjson
          exact json t (ih _ (by simp [fence, jsonWord]; omega) t rfl)
        · exact bare t hjson (ih _ (by simp [fence]; omega) t rfl)
      · cases s with
        | nil => exact nil
        | cons c s => exact cons c s hfence (ih _ (by simp) s rfl)

/-- A word cannot reach over a character that it does not have. -/
theorem isPrefix_append_cons {p a b : Str} {c : Code} (hc : c ∉ p) :
    p <+: a ++ c :: b ↔ p <+: a := by
  induction p generalizing a with
  | nil => simp
  | cons d p ih =>
      cases a with
      | nil =>
          have hne : d ≠ c := fun h ↦ hc (by simp [h])
          simp [hne]
      | cons e a =>
          rw [List.cons_append, List.cons_prefix_cons, List.cons_prefix_cons,
            ih fun h ↦ hc (List.mem_cons_of_mem _ h)]

/-- A fence does not reach over a character that it cannot have. -/
theorem dropFences_append_cons {c : Code} (hc : ¬ FenceChar c) (a b : Str) :
    dropFences (a ++ c :: b) = dropFences a ++ c :: dropFences b := by
  have hfence : c ∉ fence := fun h ↦ hc (.inl h)
  have hjson : c ∉ jsonWord := fun h ↦ hc (.inr h)
  induction a using fenceInduction with
  | nil =>
      have hnot : ¬ fence <+: c :: b := by
        rw [← List.nil_append (c :: b), isPrefix_append_cons hfence]
        simp [fence]
      simp [dropFences_cons hnot]
  | json s ih => simpa using ih
  | bare s hs ih =>
      have hs' : ¬ jsonWord <+: s ++ c :: b := by rwa [isPrefix_append_cons hjson]
      rw [List.append_assoc, dropFences_fence hs', dropFences_fence hs, ih]
  | cons d s hs ih =>
      have hs' : ¬ fence <+: d :: (s ++ c :: b) := by
        rwa [← List.cons_append, isPrefix_append_cons hfence]
      rw [List.cons_append, dropFences_cons hs', dropFences_cons hs, ih, List.cons_append]

/-- Where there is no backtick, there is no fence. -/
theorem dropFences_append_left {a : Str} (ha : .char '\x60' ∉ a) (b : Str) :
    dropFences (a ++ b) = a ++ dropFences b := by
  induction a with
  | nil => rfl
  | cons c a ih =>
      have hc : c ≠ .char '\x60' := fun h ↦ ha (by simp [h])
      have hnot : ¬ fence <+: c :: (a ++ b) := by
        rintro ⟨t, ht⟩
        exact hc (List.cons.inj ht).1.symm
      rw [List.cons_append, dropFences_cons hnot, ih fun h ↦ ha (List.mem_cons_of_mem _ h)]
      rfl

theorem mem_of_mem_dropFences {s : Str} {c : Code} (h : c ∈ dropFences s) : c ∈ s := by
  induction s using fenceInduction with
  | nil => simp at h
  | json s ih =>
      rw [dropFences_json] at h
      exact List.mem_append_right _ (List.mem_append_right _ (ih h))
  | bare s hs ih =>
      rw [dropFences_fence hs] at h
      exact List.mem_append_right _ (ih h)
  | cons d s hs ih =>
      rw [dropFences_cons hs, List.mem_cons] at h
      rcases h with rfl | h
      · exact List.mem_cons_self
      · exact List.mem_cons_of_mem _ (ih h)

/-! ## Inside of JSON -/

/-- A character of a fence is written as it is. -/
theorem escape_of_fenceChar {c : Code} (hc : FenceChar c) : escape true c = [c] := by
  have hall : ∀ c ∈ fence ++ jsonWord, escape true c = [c] := by decide
  rcases hc with hc | hc
  · exact hall c (List.mem_append_left _ hc)
  · exact hall c (List.mem_append_right _ hc)

theorem backtick_not_mem_unitText (n : Nat) : .char '\x60' ∉ unitText n := by
  have hdigit : ∀ m, hexDigit (m % 16) ≠ '\x60' := by
    have hall : ∀ m < 16, hexDigit m ≠ '\x60' := by decide
    exact fun m ↦ hall _ (Nat.mod_lt _ (by decide))
  simp only [unitText, List.mem_cons, Code.char.injEq, List.not_mem_nil, or_false]
  rintro (h | h | h | h | h | h)
  · revert h
    decide
  · revert h
    decide
  · exact hdigit _ h.symm
  · exact hdigit _ h.symm
  · exact hdigit _ h.symm
  · exact hdigit _ h.symm

/-- What is written for another character is this character, or it begins with a backslash;
and it has no backtick. -/
theorem escape_of_not_fenceChar {c : Code} (hc : ¬ FenceChar c) :
    (∃ d t, escape true c = d :: t ∧ ¬ FenceChar d) ∧ .char '\x60' ∉ escape true c := by
  have hback : ¬ FenceChar (.char '\\') := by decide
  have hunit : ∀ n, ∃ t, unitText n = .char '\\' :: t := fun n ↦ ⟨_, rfl⟩
  rw [escape]
  split
  · next e he =>
      refine ⟨⟨_, _, rfl, hback⟩, ?_⟩
      simp only [shortEscape] at he
      split at he <;> cases he <;> decide
  split
  · obtain ⟨t, ht⟩ := hunit c.ord
    exact ⟨⟨_, t, ht, hback⟩, backtick_not_mem_unitText _⟩
  split
  · split
    · obtain ⟨t, ht⟩ := hunit c.ord
      exact ⟨⟨_, t, ht, hback⟩, backtick_not_mem_unitText _⟩
    · obtain ⟨t, ht⟩ := hunit (0xD800 + (c.ord - 0x10000) / 0x400)
      refine ⟨⟨_, t ++ _, by rw [ht]; rfl, hback⟩, ?_⟩
      rw [List.mem_append, not_or]
      exact ⟨backtick_not_mem_unitText _, backtick_not_mem_unitText _⟩
  · refine ⟨⟨c, [], rfl, hc⟩, ?_⟩
    rw [List.mem_singleton]
    rintro rfl
    exact hc (by decide)

/-- A word of a fence stands at the start of what is written exactly if it stood at the start
of the string. -/
theorem isPrefix_escape {p : Str} (hp : ∀ c ∈ p, FenceChar c) (s : Str) :
    p <+: s.flatMap (escape true) ↔ p <+: s := by
  induction p generalizing s with
  | nil => simp
  | cons c p ih =>
      cases s with
      | nil => simp
      | cons d s =>
          rw [List.flatMap_cons]
          by_cases hd : FenceChar d
          · rw [escape_of_fenceChar hd, List.singleton_append, List.cons_prefix_cons,
              List.cons_prefix_cons, ih fun e he ↦ hp e (List.mem_cons_of_mem _ he)]
          · obtain ⟨e, t, he, hne⟩ := (escape_of_not_fenceChar hd).1
            have hc := hp c List.mem_cons_self
            rw [he, List.cons_append, List.cons_prefix_cons, List.cons_prefix_cons]
            refine iff_of_false (fun h ↦ hne ?_) fun h ↦ hd ?_
            · rwa [← h.1]
            · rwa [← h.1]

theorem fenceChar_of_mem_fence {c : Code} (h : c ∈ fence) : FenceChar c := .inl h

theorem fenceChar_of_mem_jsonWord {c : Code} (h : c ∈ jsonWord) : FenceChar c := .inr h

theorem flatMap_escape {p : Str} (hp : ∀ c ∈ p, FenceChar c) : p.flatMap (escape true) = p := by
  induction p with
  | nil => rfl
  | cons c p ih =>
      rw [List.flatMap_cons, escape_of_fenceChar (hp c List.mem_cons_self),
        ih fun d hd ↦ hp d (List.mem_cons_of_mem _ hd)]
      rfl

/-- Fences can be removed before a string is written. -/
theorem dropFences_escape (s : Str) :
    dropFences (s.flatMap (escape true)) = (dropFences s).flatMap (escape true) := by
  induction s using fenceInduction with
  | nil => rfl
  | json s ih =>
      rw [List.flatMap_append, List.flatMap_append,
        flatMap_escape fun _ ↦ fenceChar_of_mem_fence,
        flatMap_escape fun _ ↦ fenceChar_of_mem_jsonWord, dropFences_json, dropFences_json, ih]
  | bare s hs ih =>
      have hs' : ¬ jsonWord <+: s.flatMap (escape true) := by
        rwa [isPrefix_escape fun _ ↦ fenceChar_of_mem_jsonWord]
      rw [List.flatMap_append, flatMap_escape fun _ ↦ fenceChar_of_mem_fence,
        dropFences_fence hs', dropFences_fence hs, ih]
  | cons c s hs ih =>
      have hs' : ¬ fence <+: (c :: s).flatMap (escape true) := by
        rwa [isPrefix_escape fun _ ↦ fenceChar_of_mem_fence]
      rw [dropFences_cons hs, List.flatMap_cons, List.flatMap_cons, ← ih]
      by_cases hc : FenceChar c
      · rw [List.flatMap_cons] at hs'
        rw [escape_of_fenceChar hc, List.singleton_append] at hs' ⊢
        rw [dropFences_cons hs', List.singleton_append]
      · exact dropFences_append_left (escape_of_not_fenceChar hc).2 _

/-- A written string, between other text. -/
theorem dropFences_quote (s t : Str) :
    dropFences (quote true s ++ t) = quote true (dropFences s) ++ dropFences t := by
  have hquote : ¬ FenceChar (.char '"') := by decide
  have hfront := dropFences_append_cons hquote [] (s.flatMap (escape true) ++ .char '"' :: t)
  have hback := dropFences_append_cons hquote (s.flatMap (escape true)) t
  simp only [quote, List.cons_append, List.append_assoc, List.nil_append] at hfront ⊢
  rw [hfront, hback, dropFences_escape]
  rfl

/-! ## What is left -/

theorem dropFences_of_not_infix {s : Str} (hs : ¬ fence <:+: s) : dropFences s = s := by
  induction s using fenceInduction with
  | nil => exact dropFences_nil
  | json s ih => exact absurd (List.prefix_append fence _).isInfix hs
  | bare s h ih => exact absurd (List.prefix_append fence _).isInfix hs
  | cons c s h ih => rw [dropFences_cons h, ih fun hin ↦ hs (List.infix_cons hin)]

/-- One or two backticks in front of what is left were in front of the string. -/
theorem isPrefix_of_dropFences {p : Str} (hp : p = fence.take 1 ∨ p = fence.take 2) {s : Str}
    (h : p <+: dropFences s) : p <+: s := by
  have hone : ∀ s : Str, fence.take 1 <+: dropFences s → fence.take 1 <+: s := by
    intro s h
    by_cases hfence : fence <+: s
    · exact (List.take_prefix 1 fence).trans hfence
    · cases s with
      | nil => simpa using h
      | cons c s =>
          rw [dropFences_cons hfence] at h
          obtain ⟨rfl, -⟩ := List.cons_prefix_cons.mp h
          exact List.cons_prefix_cons.mpr ⟨rfl, List.nil_prefix⟩
  rcases hp with rfl | rfl
  · exact hone s h
  · by_cases hfence : fence <+: s
    · exact (List.take_prefix 2 fence).trans hfence
    · cases s with
      | nil => simpa using h
      | cons c s =>
          rw [dropFences_cons hfence] at h
          obtain ⟨rfl, hrest⟩ := List.cons_prefix_cons.mp h
          exact List.cons_prefix_cons.mpr ⟨rfl, hone s hrest⟩

/-- No fence comes about when others are removed. -/
theorem fence_not_infix_dropFences (s : Str) : ¬ fence <:+: dropFences s := by
  induction s using fenceInduction with
  | nil => simp [fence]
  | json s ih => rwa [dropFences_json]
  | bare s h ih => rwa [dropFences_fence h]
  | cons c s h ih =>
      rw [dropFences_cons h, List.infix_cons_iff, not_or]
      refine ⟨fun hfront ↦ h ?_, ih⟩
      obtain ⟨rfl, hrest⟩ := List.cons_prefix_cons.mp hfront
      exact List.cons_prefix_cons.mpr ⟨rfl, isPrefix_of_dropFences (.inr rfl) hrest⟩

/-! ## White space -/

section Blank

variable {p : Str} (hp : ∀ c ∈ p, isSpace c = false)

include hp

theorem isPrefix_collapse (s : Str) : p <+: collapse s ↔ p <+: s := by
  induction p generalizing s with
  | nil => simp
  | cons c p ih =>
      have hc := hp c List.mem_cons_self
      cases s with
      | nil => rfl
      | cons d s =>
          by_cases hd : isSpace d
          · have hne : c ≠ d := by
              rintro rfl
              rw [hc] at hd
              cases hd
            have hblank : c ≠ .char ' ' := by
              rintro rfl
              revert hc
              decide
            have hstart : ∃ t, collapse (d :: s) = .char ' ' :: t := by
              rw [collapse, if_pos hd]
              split
              · exact ⟨_, rfl⟩
              · exact ⟨_, rfl⟩
            obtain ⟨t, ht⟩ := hstart
            rw [ht, List.cons_prefix_cons, List.cons_prefix_cons]
            exact iff_of_false (fun h ↦ hblank h.1) fun h ↦ hne h.1
          · rw [collapse, if_neg hd, List.cons_prefix_cons, List.cons_prefix_cons,
              ih fun e he ↦ hp e (List.mem_cons_of_mem _ he)]

/-- A word stands in the collapsed string exactly if it stands in the string. -/
theorem isInfix_collapse (hne : p ≠ []) (s : Str) : p <:+: collapse s ↔ p <:+: s := by
  induction s with
  | nil => rfl
  | cons d s ih =>
      have hfront := isPrefix_collapse hp (d :: s)
      by_cases hd : isSpace d
      · have hnot : ¬ p <+: d :: s := by
          rintro ⟨t, ht⟩
          cases p with
          | nil => exact hne rfl
          | cons c p =>
              have hc := hp c List.mem_cons_self
              rw [(List.cons.inj ht).1, hd] at hc
              cases hc
        rw [List.infix_cons_iff, ← ih]
        rw [collapse, if_pos hd] at hfront ⊢
        split at hfront
        · next t ht =>
            rw [ht]
            exact ⟨.inr, fun h ↦ h.resolve_left hnot⟩
        · next t ht =>
            rw [List.infix_cons_iff, hfront]
      · rw [collapse, if_neg hd] at hfront ⊢
        rw [List.infix_cons_iff, List.infix_cons_iff, hfront, ih]

end Blank

/-- A word of two characters or more that are no white space is not stripped. -/
theorem isInfix_strip {c d : Code} {m : Str} (hc : isSpace c = false) (hd : isSpace d = false)
    (s : Str) : c :: (m ++ [d]) <:+: strip s ↔ c :: (m ++ [d]) <:+: s := by
  constructor
  · intro h
    exact h.trans ((List.rdropWhile_prefix _ _).isInfix.trans (List.dropWhile_suffix _).isInfix)
  · rintro ⟨a, b, rfl⟩
    have haround := strip_around hc hd a m b
    refine ⟨a.dropWhile isSpace, b.rdropWhile isSpace, ?_⟩
    have hassoc : a ++ c :: (m ++ [d]) ++ b = a ++ c :: (m ++ d :: b) := by simp
    rw [hassoc, haround]
    simp

end Adapta.Extraction
