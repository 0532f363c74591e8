import Mathlib.Data.Rat.Defs
import Adapta.AppSettings.Cache
import Adapta.Documents.Chunking

/-!
# The whitelist, and the chunk settings

`_validate` of `adapta/services/app_settings.py` checks a value against the bounds of its own
key, so that `chunk_size` and `chunk_overlap` are bounded one by one.  The pair that is in force
for a team goes to `chunk_text`.

A value is what the type of the setting makes of the request's value; the texts of the refusals,
and the labels and descriptions of the settings, are left out.
-/

namespace Adapta.AppSettings

open Lib Documents

/-! ## The whitelist -/

/-- A value of a setting. -/
inductive Value where
  | int (n : Int)
  | float (x : Rat)
deriving DecidableEq, Repr

/-- The type of a setting. -/
inductive Kind where
  | int
  | float
deriving DecidableEq, Repr

def Value.kind : Value → Kind
  | .int _ => .int
  | .float _ => .float

def Value.toRat : Value → Rat
  | .int n => n
  | .float x => x

/-- The number of an integer setting. -/
def Value.toInt : Value → Int
  | .int n => n
  | .float x => x.floor

structure SettingSpec where
  key : String
  kind : Kind
  default : Value
  minVal : Rat
  maxVal : Rat
deriving DecidableEq, Repr

/-- `WHITELIST`. -/
def whitelist : List SettingSpec :=
  [⟨"temperature", .float, .float (7 / 10), 0, 2⟩,
    ⟨"top_p", .float, .float (9 / 10), 1 / 100, 1⟩,
    ⟨"top_k", .int, .int 40, 1, 200⟩,
    ⟨"max_tokens", .int, .int 512, 64, 4096⟩,
    ⟨"rag_top_k", .int, .int 5, 1, 50⟩,
    ⟨"chunk_size", .int, .int 512, 64, 2048⟩,
    ⟨"chunk_overlap", .int, .int 64, 0, 512⟩,
    ⟨"synthesis_max_error_rate", .float, .float (1 / 2), 0, 1⟩,
    ⟨"max_images_per_request", .int, .int 4, 1, 10⟩]

/-- `_validate`, for a value of the setting's type. -/
def validate (key : String) (v : Value) : Bool :=
  match whitelist.find? fun spec ↦ spec.key = key with
  | none => false
  | some spec => v.kind = spec.kind && spec.minVal ≤ v.toRat && v.toRat ≤ spec.maxVal

/-- The configured values: those of the chunk settings, and the others. -/
structure Env where
  defaults : Defaults
  other : String → Value

/-- `_env_default`. -/
def Env.value (env : Env) (key : String) : Value :=
  if key = "chunk_size" then .int env.defaults.chunkSize
  else if key = "chunk_overlap" then .int env.defaults.chunkOverlap
  else env.other key

def settingsConfig (env : Env) : Config Value where
  whitelisted key := whitelist.any fun spec ↦ spec.key = key
  valid := validate
  envDefault := env.value

/-- Every default is a valid value of its setting. -/
theorem validate_default : ∀ spec ∈ whitelist, validate spec.key spec.default = true := by
  with_unfolding_all decide

/-! ## Valid rows -/

section Rows

variable {V : Type} {c : Config V} {s s' : State V} {a : Act V} {i : OpId}

/-- Every row of the table has been validated, and so has the value of a write under way. -/
structure Valid (c : Config V) (s : State V) : Prop where
  table : ∀ slot row, s.table slot = some row → c.valid slot.2 row.value = true
  ops : ∀ i v u, (s.ops i).call = .upsertSetting v u →
    ((s.ops i).pc = .begun ∨ ∃ row, (s.ops i).pc = .read row) →
      c.valid (s.ops i).slot.2 v = true

/-- A step of one call that leaves its value and the table. -/
theorem Valid.of_setPc {pc : Pc V} (h : Valid c s) (hpc : (s.ops i).pc = .begun ∨
    (pc ≠ .begun ∧ ∀ row, pc ≠ .read row)) : Valid c (s.setPc i pc) := by
  refine ⟨h.table, ?_⟩
  intro j v u hcall hlive
  by_cases hj : j = i
  · subst hj
    rw [setPc_self] at hcall hlive ⊢
    rcases hpc with hbegun | ⟨hne, hread⟩
    · exact h.ops j v u hcall (Or.inl hbegun)
    · rcases hlive with hlive | ⟨row, hlive⟩
      · exact absurd hlive hne
      · exact absurd hlive (hread row)
  · rw [setPc_of_ne hj] at hcall hlive ⊢
    exact h.ops j v u hcall hlive

/-- A row that is written has the new value, or it is the old one. -/
theorem flushUpsert_value [DecidableEq V] {current row row' : Option (Row V)} {v : V}
    {updatedBy : String} {id : Nat} (h : State.flushUpsert current row v updatedBy id = some row') :
    ∀ r ∈ row', r.value = v ∨ ∃ x ∈ current, r.value = x.value := by
  intro r hr
  simp only [State.flushUpsert] at h
  split at h
  · split at h
    · obtain rfl := Option.some.inj h
      obtain rfl := Option.some.inj hr
      exact Or.inl rfl
    · cases h
  · split at h
    · obtain rfl := Option.some.inj h
      exact Or.inr ⟨r, hr, rfl⟩
    · split at h
      · cases h
      · rename_i x
        split at h
        · obtain rfl := Option.some.inj h
          obtain rfl := Option.some.inj hr
          simp only [Option.mem_def, Option.some.injEq, exists_eq_left']
          split
          · exact Or.inr rfl
          · exact Or.inl rfl
        · cases h

theorem Valid.setTable {slot : Slot} {row : Option (Row V)} {n : Nat} (h : Valid c s)
    (hrow : ∀ r ∈ row, c.valid slot.2 r.value = true) :
    Valid c { s with table := Function.update s.table slot row, nextId := n } := by
  refine ⟨?_, h.ops⟩
  intro slot' r hr
  replace hr : Function.update s.table slot row slot' = some r := hr
  by_cases hs : slot' = slot
  · subst hs
    rw [Function.update_self] at hr
    exact hrow r hr
  · rw [Function.update_of_ne hs] at hr
    exact h.table slot' r hr

theorem Valid.call {call : Call V} {slot : Slot} (h : Valid c s) :
    Valid c (s.call c i call slot) := by
  refine ⟨h.table, ?_⟩
  intro j v u hcall hlive
  by_cases hj : j = i
  · subst hj
    simp only [State.call, Function.update_self] at hcall hlive ⊢
    subst hcall
    simp only at hlive ⊢
    by_contra hinvalid
    rw [if_neg (by simp [hinvalid])] at hlive
    simp at hlive
  · have hself : (s.call c i call slot).ops j = s.ops j := Function.update_of_ne hj _ _
    rw [hself] at hcall hlive ⊢
    exact h.ops j v u hcall hlive

/-- **Every step keeps the rows valid.** -/
theorem Valid.step [DecidableEq V] (h : Valid c s) (hn : AppSettings.step c s a = some s') :
    Valid c s' := by
  cases a with
  | call i call slot =>
      simp only [AppSettings.step, Option.ite_none_right_eq_some, Option.some.injEq] at hn
      obtain ⟨-, rfl⟩ := hn
      exact h.call
  | select i =>
      simp only [AppSettings.step, Option.ite_none_right_eq_some, Option.some.injEq] at hn
      obtain ⟨hbegun, rfl⟩ := hn
      exact h.of_setPc (Or.inl hbegun)
  | commit i =>
      simp only [AppSettings.step] at hn
      split at hn
      · rename_i v updatedBy row hcall hpc
        have hv := h.ops i v updatedBy hcall (Or.inr ⟨row, hpc⟩)
        obtain rfl := Option.some.inj hn
        rw [State.commitUpsert]
        split
        · exact h.of_setPc (Or.inr ⟨by simp, by simp⟩)
        · rename_i row' hflush
          refine Valid.of_setPc (h.setTable ?_) (Or.inr ⟨by simp, by simp⟩)
          intro r hr
          rcases flushUpsert_value hflush r hr with hval | ⟨x, hx, hval⟩
          · rw [hval]
            exact hv
          · rw [hval]
            exact h.table _ x hx
      · rename_i r hcall hpc
        obtain rfl := Option.some.inj hn
        rw [State.commitDelete]
        refine Valid.of_setPc (h.setTable (n := s.nextId) ?_) (Or.inr ⟨by simp, by simp⟩)
        intro x hx
        exact h.table _ x (Option.mem_filter_iff.mp hx).1
      · cases hn
  | resume i =>
      simp only [AppSettings.step] at hn
      split at hn
      · obtain rfl := Option.some.inj hn
        exact Valid.of_setPc ⟨h.table, h.ops⟩ (Or.inr ⟨by simp, by simp⟩)
      · obtain rfl := Option.some.inj hn
        exact Valid.of_setPc ⟨h.table, h.ops⟩ (Or.inr ⟨by simp, by simp⟩)
      · obtain rfl := Option.some.inj hn
        exact Valid.of_setPc ⟨h.table, h.ops⟩ (Or.inr ⟨by simp, by simp⟩)
      · obtain rfl := Option.some.inj hn
        exact Valid.of_setPc ⟨h.table, h.ops⟩ (Or.inr ⟨by simp, by simp⟩)
      · cases hn
  | tick =>
      obtain rfl := Option.some.inj hn
      exact ⟨h.table, h.ops⟩

/-- After any calls, in any order, every override is valid. -/
theorem valid_of_reachable [DecidableEq V] {x : State V × History V} (h : (process c).Reachable x) :
    Valid c x.1 := by
  apply h.invariant (P := fun x ↦ Valid c x.1)
  · refine ⟨?_, ?_⟩
    · intro slot row hrow
      cases hrow
    · intro i v u hcall
      cases hcall
  · intro x a x' hx _ hn
    obtain ⟨s', hs, rfl⟩ := Option.map_eq_some_iff.mp hn
    exact hx.step hs

end Rows

/-! ## The chunk settings -/

section ChunkSettings

variable {env : Env} {s : State Value} {team : String} {x : State Value × History Value}

/-- The values that a team has. -/
def chunkSize (env : Env) (s : State Value) (team : String) : Int :=
  (current (settingsConfig env) s (team, "chunk_size")).toInt

def chunkOverlap (env : Env) (s : State Value) (team : String) : Int :=
  (current (settingsConfig env) s (team, "chunk_overlap")).toInt

/-- Every chunk of every text is at most the chunk size and its longest sentence long. -/
def ChunksBounded (env : Env) (s : State Value) (team : String) : Prop :=
  ∀ text source, ∀ x ∈ chunkText env.defaults text source (some (chunkSize env s team))
    (some (chunkOverlap env s team)), Bounded (chunkSize env s team) x.1

/-- The overlap that `chunk_text` works with: zero stands for the configured one. -/
def overlapInForce (env : Env) (s : State Value) (team : String) : Int :=
  if chunkOverlap env s team = 0 then env.defaults.chunkOverlap else chunkOverlap env s team

theorem validate_chunkSize {v : Value} (h : validate "chunk_size" v = true) : 64 ≤ v.toInt := by
  have hspec : (whitelist.find? fun spec ↦ spec.key = "chunk_size") =
      some ⟨"chunk_size", .int, .int 512, 64, 2048⟩ := by decide
  rw [validate, hspec] at h
  simp only [Bool.and_eq_true, decide_eq_true_eq] at h
  obtain ⟨⟨hkind, hmin⟩, -⟩ := h
  cases v with
  | int n =>
      rw [Value.toRat] at hmin
      rw [Value.toInt]
      exact_mod_cast hmin
  | float x => cases hkind

/-- An override is positive; without one the configured value is in force. -/
theorem chunkSize_cases (h : Valid (settingsConfig env) s) (team : String) :
    (s.table (team, "chunk_size") ≠ none ∧ 64 ≤ chunkSize env s team) ∨
      (s.table (team, "chunk_size") = none ∧ chunkSize env s team = env.defaults.chunkSize) := by
  cases hrow : s.table (team, "chunk_size") with
  | none =>
      refine Or.inr ⟨rfl, ?_⟩
      rw [chunkSize, current, hrow]
      rfl
  | some row =>
      refine Or.inl ⟨by simp, ?_⟩
      have hvalid := validate_chunkSize (h.table _ row hrow)
      rw [chunkSize, current, hrow]
      exact hvalid

/-- The chunk size is in force as it is: it is zero only if it is the configured one. -/
theorem pyOr_chunkSize (h : Valid (settingsConfig env) s) :
    pyOr (some (chunkSize env s team)) env.defaults.chunkSize = chunkSize env s team := by
  rw [pyOr]
  split
  · rename_i hzero
    rcases chunkSize_cases h team with ⟨-, hpos⟩ | ⟨-, hdefault⟩
    · omega
    · exact hdefault.symm
  · rfl

/-- After any calls of the settings' operations, the chunks of a team are bounded for every text
exactly if the overlap in force is at most the chunk size. -/
theorem chunksBounded_iff (h : (process (settingsConfig env)).Reachable x) (team : String) :
    ChunksBounded env x.1 team ↔ overlapInForce env x.1 team ≤ chunkSize env x.1 team ∧
      (x.1.table (team, "chunk_size") ≠ none ∨ 0 ≤ env.defaults.chunkSize) := by
  have hvalid := valid_of_reachable h
  have hsize : 0 ≤ chunkSize env x.1 team ↔
      x.1.table (team, "chunk_size") ≠ none ∨ 0 ≤ env.defaults.chunkSize := by
    rcases chunkSize_cases hvalid team with ⟨hrow, hpos⟩ | ⟨hrow, hdefault⟩
    · exact ⟨fun _ ↦ Or.inl hrow, fun _ ↦ by omega⟩
    · rw [hdefault]
      exact ⟨Or.inr, fun h ↦ h.resolve_left (absurd hrow)⟩
  have hoverlap : pyOr (some (chunkOverlap env x.1 team)) env.defaults.chunkOverlap =
      overlapInForce env x.1 team := rfl
  have hchunks : ChunksBounded env x.1 team ↔ ∀ source text, ∀ y ∈ chunksOf source
      (chunkSize env x.1 team) (overlapInForce env x.1 team) (sentences text),
        Bounded (chunkSize env x.1 team) y.1 := by
    simp only [ChunksBounded, chunkText, pyOr_chunkSize hvalid, hoverlap]
    exact forall_comm
  rw [hchunks, ← hsize, and_comm]
  constructor
  · intro h
    exact bounded_iff.mp (h [])
  · intro h source
    exact bounded_iff.mpr h

/-- The values of the repository's configuration. -/
def repoEnv : Env := ⟨⟨512, 64⟩, fun _ ↦ .int 0⟩

/-- An upsert, one call after the other. -/
def upsert (i : OpId) (key : String) (n : Int) : List (Act Value) :=
  [.call i (.upsertSetting (.int n) "user-1") ("team-1", key), .select i, .commit i, .resume i]

/-- `chunksBounded_iff` at a larger overlap. -/
theorem chunksBounded_larger : ∃ x, (process (settingsConfig repoEnv)).Reachable x ∧
    chunkOverlap repoEnv x.1 "team-1" = 128 ∧ ChunksBounded repoEnv x.1 "team-1" := by
  obtain ⟨x, hx, hr⟩ := System.Reach.of_exec (S := process (settingsConfig repoEnv))
    (g := fun _ _ ↦ True) (l := upsert 0 "chunk_overlap" 128)
    (f := fun x ↦ (chunkOverlap repoEnv x.1 "team-1", overlapInForce repoEnv x.1 "team-1",
      chunkSize repoEnv x.1 "team-1")) (b := (128, 128, 512)) (by decide)
  simp only [Prod.mk.injEq] at hr
  obtain ⟨hoverlap, hforce, hsize⟩ := hr
  refine ⟨x, hx, hoverlap, (chunksBounded_iff hx "team-1").mpr ⟨?_, Or.inr (by decide)⟩⟩
  rw [hforce, hsize]
  decide

/-- The smallest chunk size and the largest overlap are both accepted, and a chunk of 66
characters is made of sentences of one. -/
theorem chunks_not_bounded : ∃ x, (process (settingsConfig repoEnv)).Reachable x ∧
    chunkSize repoEnv x.1 "team-1" = 64 ∧ chunkOverlap repoEnv x.1 "team-1" = 512 ∧
    (∃ y ∈ chunkText repoEnv.defaults (dots 65) [] (some 64) (some 512),
      totalLen y.1 = 66 ∧ longest y.1 = 1) ∧
    ¬ChunksBounded repoEnv x.1 "team-1" := by
  obtain ⟨x, hx, hr⟩ := System.Reach.of_exec (S := process (settingsConfig repoEnv))
    (g := fun _ _ ↦ True) (l := upsert 0 "chunk_size" 64 ++ upsert 1 "chunk_overlap" 512)
    (f := fun x ↦ (chunkSize repoEnv x.1 "team-1", chunkOverlap repoEnv x.1 "team-1"))
    (b := (64, 512)) (by decide)
  obtain ⟨hsize, hoverlap⟩ := Prod.mk.inj hr
  have hlong : ∃ y ∈ chunkText repoEnv.defaults (dots 65) [] (some 64) (some 512),
      totalLen y.1 = 66 ∧ longest y.1 = 1 := by decide +kernel
  refine ⟨x, hx, hsize, hoverlap, hlong, ?_⟩
  intro hbounded
  obtain ⟨y, hy, htotal, hlongest⟩ := hlong
  have hy := hbounded (dots 65) [] y (by rwa [hsize, hoverlap])
  rw [Bounded, htotal, hlongest, hsize] at hy
  revert hy
  decide

end ChunkSettings

end Adapta.AppSettings
