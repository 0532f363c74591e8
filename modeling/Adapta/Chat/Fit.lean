import Adapta.Chat.Agree
import Mathlib.Data.Nat.Find

/-!
# The fit into the context window

What `_fit_context` of `adapta/services/chat.py` answers: with the longest prefix of the
retrieved chunks that leaves room for an answer, found from the longest one down.

The room it leaves is `min(16, max_tokens)`, and neither the schema of a request nor
`adapta/config.py` bounds `max_tokens` from below.  With a negative one a prompt that is longer
than the window passes for one that fits.
-/

namespace Adapta.Chat

open Api Lib Rag

/-- What `_fit_context` is given. -/
structure Fitting where
  count : Option Str → Nat
  nCtx : Nat
  system : List RetrievedChunk → Option Str
  chunks : List RetrievedChunk
  maxTokens : Int

namespace Fitting

/-! ## Prefixes of the chunks -/

section

variable (f : Fitting)

/-- What `_fit_context` answers. -/
def fit : Except DomainError (Option Str × List RetrievedChunk × Int) :=
  fitContext f.count f.nCtx f.system f.chunks f.maxTokens

/-- The system prompt with the first `k` chunks. -/
def prompt (k : Nat) : Option Str := f.system (f.chunks.take k)

def promptTokens (k : Nat) : Nat := f.count (f.prompt k)

/-- The prompt with the first `k` chunks leaves room for an answer. -/
def Fits (k : Nat) : Prop := f.promptTokens k + min minGenReserve f.maxTokens ≤ f.nCtx

instance : DecidablePred f.Fits := fun k ↦
  inferInstanceAs (Decidable (f.promptTokens k + min minGenReserve f.maxTokens ≤ f.nCtx))

/-- The first `k` chunks are the longest prefix that leaves room for an answer. -/
structure Longest (k : Nat) : Prop where
  le : k ≤ f.chunks.length
  fits : f.Fits k
  longer : ∀ j, k < j → j ≤ f.chunks.length → ¬f.Fits j

/-- The cap on the tokens of the answer. -/
def cap (k : Nat) : Int := max 1 (min f.maxTokens (f.nCtx - f.promptTokens k))

/-- What `_fit_context` is to answer. -/
def Meets : Except DomainError (Option Str × List RetrievedChunk × Int) → Prop
  | .ok (prompt, kept, cap) =>
      (∃ k, f.Longest k ∧ prompt = f.prompt k ∧ kept = f.chunks.take k) ∧
        1 ≤ cap ∧ cap ≤ max 1 f.maxTokens ∧ f.count prompt + cap ≤ f.nCtx
  | .error e => (∃ message, e = .invalidRequest message) ∧ ∀ k ≤ f.chunks.length, ¬f.Fits k

/-- A prompt that fills the window and passes for one that fits has fewer chunks than one that
is shorter than the window. -/
def Outgrown : Prop :=
  ∀ k ≤ f.chunks.length, f.nCtx ≤ f.promptTokens k → f.promptTokens k + f.maxTokens ≤ f.nCtx →
    ∃ j, k < j ∧ j ≤ f.chunks.length ∧ f.promptTokens j < f.nCtx

end

/-! ## The loop -/

variable {f : Fitting} {k : Nat}

/-- One round of the loop. -/
theorem round_eq (otherwise : Nat → Except DomainError (Option Str × List RetrievedChunk × Int)) :
    fitRound f.count f.nCtx f.system f.maxTokens (f.chunks.take k) otherwise =
      if f.Fits k then .ok (f.prompt k, f.chunks.take k, f.cap k)
      else otherwise (f.promptTokens k) := rfl

/-- The loop stops at the greatest number of chunks that fits, or refuses the bare prompt. -/
theorem loop_eq (k : Nat) :
    fitLoop f.count f.nCtx f.system f.chunks f.maxTokens k =
      if f.Fits (Nat.findGreatest f.Fits k) then
        .ok (f.prompt (Nat.findGreatest f.Fits k), f.chunks.take (Nat.findGreatest f.Fits k),
          f.cap (Nat.findGreatest f.Fits k))
      else .error (.invalidRequest (promptTooLong (f.promptTokens 0) f.nCtx)) := by
  induction k with
  | zero =>
      rw [fitLoop, Nat.findGreatest_zero]
      exact round_eq (f := f) (k := 0) _
  | succ k ih =>
      rw [fitLoop, round_eq, Nat.findGreatest_succ, ih]
      by_cases h : f.Fits (k + 1)
      · rw [if_pos h, if_pos h, if_pos h]
      · rw [if_neg h, if_neg h]

/-- The answer is made with the longest prefix that fits. -/
theorem Longest.fit_eq (h : f.Longest k) : f.fit = .ok (f.prompt k, f.chunks.take k, f.cap k) := by
  have hk : Nat.findGreatest f.Fits f.chunks.length = k := by
    rw [Nat.findGreatest_eq_iff]
    refine ⟨h.le, fun _ ↦ h.fits, ?_⟩
    intro j hlt hle
    exact h.longer j hlt hle
  rw [fit, fitContext, loop_eq, hk, if_pos h.fits]

/-- What is kept is a prefix of the chunks, and the prompt is made with it. -/
theorem fit_ok {prompt : Option Str} {kept : List RetrievedChunk} {cap : Int}
    (h : f.fit = .ok (prompt, kept, cap)) : prompt = f.system kept ∧ kept <+: f.chunks := by
  rw [fit, fitContext, loop_eq] at h
  split at h
  · cases h
    exact ⟨rfl, List.take_prefix _ _⟩
  · cases h

theorem exists_longest {j : Nat} (hle : j ≤ f.chunks.length) (h : f.Fits j) :
    ∃ k, f.Longest k ∧ j ≤ k := by
  refine ⟨Nat.findGreatest f.Fits f.chunks.length, ⟨?_, ?_, ?_⟩, Nat.le_findGreatest hle h⟩
  · exact Nat.findGreatest_le _
  · exact Nat.findGreatest_spec hle h
  · intro i hlt hi
    exact Nat.findGreatest_is_greatest hlt hi

/-- If no prefix fits, the bare prompt is refused. -/
theorem fit_eq_error (h : ∀ k ≤ f.chunks.length, ¬f.Fits k) :
    f.fit = .error (.invalidRequest (promptTooLong (f.promptTokens 0) f.nCtx)) := by
  rw [fit, fitContext, loop_eq, if_neg]
  exact h _ (Nat.findGreatest_le _)

theorem Longest.unique {i j : Nat} (hi : f.Longest i) (hj : f.Longest j) : i = j := by
  apply Nat.le_antisymm
  · by_contra hlt
    exact hj.longer i (Nat.lt_of_not_le hlt) hi.le hi.fits
  · by_contra hlt
    exact hi.longer j (Nat.lt_of_not_le hlt) hj.le hj.fits

/-! ## The cap -/

theorem one_le_cap (k : Nat) : 1 ≤ f.cap k := le_max_left _ _

theorem cap_le (k : Nat) : f.cap k ≤ max 1 f.maxTokens := by
  apply max_le_max_left
  exact min_le_left _ _

/-- The capped answer ends within the window if the prompt is shorter than the window. -/
theorem cap_fits_iff (k : Nat) :
    f.promptTokens k + f.cap k ≤ f.nCtx ↔ f.promptTokens k < f.nCtx := by
  rw [cap]
  omega

/-- An answer with the longest prefix is as it is to be if its prompt is shorter than the
window. -/
theorem Longest.meets_iff (h : f.Longest k) : f.Meets f.fit ↔ f.promptTokens k < f.nCtx := by
  rw [h.fit_eq, ← cap_fits_iff]
  constructor
  · rintro ⟨-, -, -, hcap⟩
    exact hcap
  · intro hcap
    exact ⟨⟨k, h, rfl, rfl⟩, one_le_cap k, cap_le k, hcap⟩

/-- A prompt fits if the whole answer does. -/
theorem fits_of_le (h : f.promptTokens k + f.maxTokens ≤ f.nCtx) : f.Fits k := by
  rw [Fits]
  have hmin := min_le_right minGenReserve f.maxTokens
  omega

theorem Fits.le_of_full (h : f.Fits k) (hfull : f.nCtx ≤ f.promptTokens k) :
    f.promptTokens k + f.maxTokens ≤ f.nCtx := by
  rw [Fits, minGenReserve] at h
  omega

/-- A prompt shorter than the window fits if `max_tokens` is not positive. -/
theorem fits_of_lt (hmax : f.maxTokens ≤ 0) (h : f.promptTokens k < f.nCtx) : f.Fits k := by
  rw [Fits, minGenReserve]
  omega

/-- When the answer is as it is to be. -/
theorem meets_iff : f.Meets f.fit ↔ f.Outgrown := by
  by_cases hnone : ∀ k ≤ f.chunks.length, ¬f.Fits k
  · rw [fit_eq_error hnone]
    refine iff_of_true ⟨⟨_, rfl⟩, hnone⟩ ?_
    intro k hk hfull hmax
    exact absurd (fits_of_le hmax) (hnone k hk)
  · push Not at hnone
    obtain ⟨i, hi, hfits⟩ := hnone
    obtain ⟨l, hl, -⟩ := exists_longest hi hfits
    rw [hl.meets_iff]
    constructor
    · intro hlt k hk hfull hmax
      obtain ⟨j, hj, hkj⟩ := exists_longest hk (fits_of_le hmax)
      obtain rfl := hj.unique hl
      refine ⟨j, lt_of_le_of_ne hkj ?_, hj.le, hlt⟩
      rintro rfl
      exact absurd hlt (Nat.not_lt.mpr hfull)
    · intro hout
      by_contra hfull
      rw [Nat.not_lt] at hfull
      have hmax := hl.fits.le_of_full hfull
      obtain ⟨j, hlj, hj, hlt⟩ := hout l hl.le hfull hmax
      -- The prompt fills the window, so `max_tokens` is not positive, and the longer one fits.
      exact hl.longer j hlj hj (fits_of_lt (by omega) hlt)

/-- A positive `max_tokens` makes up for no prompt that fills the window. -/
theorem outgrown_of_pos (h : 1 ≤ f.maxTokens) : f.Outgrown := by
  intro k _ hfull hmax
  omega

end Fitting

/-! ## The cap of a request -/

/-- The cap of a request is positive if the setting is and the request's own is not negative: a
zero counts as absent. -/
theorem one_le_cappedMaxTokens_iff (E : Env) (requested : Option Int) :
    1 ≤ cappedMaxTokens E requested ↔ 1 ≤ E.settings.maxTokens ∧ ∀ n ∈ requested, 0 ≤ n := by
  cases requested with
  | none => simp [cappedMaxTokens]
  | some n =>
      by_cases hn : n = 0
      · subst hn
        have hcap : cappedMaxTokens E (some 0) = E.settings.maxTokens := min_self _
        rw [hcap]
        simp
      · have hcap : cappedMaxTokens E (some n) = min n E.settings.maxTokens := by
          simp [cappedMaxTokens, Option.filter, hn]
        rw [hcap, le_min_iff]
        simp only [Option.mem_some_iff, forall_eq']
        omega

section

variable (E : Env) (requested : Option Int) (count : Option Str → Nat) (nCtx : Nat)
  (baseSystem : Option Str) (hasRag : Bool) (chunks : List RetrievedChunk) (abstain : Bool)
  (clientSystem : Option Str)

/-- What `chat` and `chat_stream` give `_fit_context`, for the `max_tokens` of a request. -/
def fitting : Fitting where
  count := count
  nCtx := nCtx
  system := fun kept ↦ buildSystem baseSystem hasRag kept abstain clientSystem
  chunks := chunks
  maxTokens := cappedMaxTokens E requested

/-- **When the context fits**: whenever the setting is positive and the request's `max_tokens`
is not negative, and else if every prompt that fills the window, by no more than `max_tokens`
falls short of zero, has fewer chunks than a prompt that is shorter than the window. -/
theorem fitting_meets_iff :
    (fitting E requested count nCtx baseSystem hasRag chunks abstain clientSystem).Meets
        (fitContext count nCtx (fun kept ↦ buildSystem baseSystem hasRag kept abstain clientSystem)
          chunks (cappedMaxTokens E requested)) ↔
      (1 ≤ E.settings.maxTokens ∧ ∀ n ∈ requested, 0 ≤ n) ∨
      (fitting E requested count nCtx baseSystem hasRag chunks abstain clientSystem).Outgrown := by
  have hiff : _ ↔ _ := Fitting.meets_iff
    (f := fitting E requested count nCtx baseSystem hasRag chunks abstain clientSystem)
  refine hiff.trans ⟨Or.inr, ?_⟩
  rintro (hpos | hout)
  · exact Fitting.outgrown_of_pos ((one_le_cappedMaxTokens_iff E requested).mpr hpos)
  · exact hout

end

/-- A prompt of 5000 tokens passes for one that fits a window of 4096, as the request has a
`max_tokens` of -1000. -/
theorem overlong_prompt_passes :
    fitContext (fun _ ↦ 5000) 4096 (fun kept ↦ buildSystem none false kept false none) []
        (cappedMaxTokens deskEnv (some (-1000))) = .ok (none, [], 1) ∧
      ¬(fitting deskEnv (some (-1000)) (fun _ ↦ 5000) 4096 none false [] false none).Meets
        (fitContext (fun _ ↦ 5000) 4096 (fun kept ↦ buildSystem none false kept false none) []
          (cappedMaxTokens deskEnv (some (-1000)))) := by
  have hfit : fitContext (fun _ ↦ 5000) 4096 (fun kept ↦ buildSystem none false kept false none)
      [] (cappedMaxTokens deskEnv (some (-1000))) = .ok (none, [], 1) := by
    decide
  refine ⟨hfit, ?_⟩
  rw [hfit]
  rintro ⟨-, -, -, hcap⟩
  exact absurd hcap (by decide)

end Adapta.Chat
