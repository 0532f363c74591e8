import Adapta.AppSettings.Whitelist

/-!
# The settings page

`resolve_all` of `adapta/services/app_settings.py` shows the settings of a team.  It reads the
table and not the cache, so it may differ from what `resolve_setting` returns: a reader whose
answer is out of date stores it after the write that made it so has taken the entry out.

Such an entry does not last.  Once no reader of a setting holds an answer that is out of date,
and no write to it is committed any more, a call of `resolve_setting` that begins
`_CACHE_TTL_SECONDS` later returns what the page shows (`resolve_agrees`).  What the page shows
as an override is within the bounds it shows (`resolveAll_spec`).

The labels, groups and descriptions of the settings are left out.
-/

namespace Adapta.AppSettings

open Lib

/-! ## The page -/

inductive Source where
  | override
  | env
  | default
deriving DecidableEq, Repr

structure Item where
  key : String
  value : Value
  source : Source
  default : Value
  minVal : Rat
  maxVal : Rat
deriving DecidableEq, Repr

/-- `resolve_all`. -/
def resolveAll (env : Env) (s : State Value) (team : String) : List Item :=
  whitelist.map fun spec ↦
    let shown : Value × Source := match s.table (team, spec.key) with
      | some row => (row.value, .override)
      | none => (env.value spec.key,
          if (env.value spec.key).toRat ≠ spec.default.toRat then .env else .default)
    ⟨spec.key, shown.1, shown.2, spec.default, spec.minVal, spec.maxVal⟩

/-! ## Outdated entries -/

section Settle

variable {V : Type} [DecidableEq V] {c : Config V} {s s' s₀ s₁ s₂ : State V} {a : Act V}
  {i j : OpId} {slot : Slot} {v : V} {n : Nat}

/-- The process with its database. -/
def machine (c : Config V) : System (State V) (Act V) := ⟨State.init, step c⟩

/-- The step leaves the value of the slot in the table. -/
def quiet (c : Config V) (slot : Slot) (s : State V) (a : Act V) : Bool :=
  (step c s a).all fun s' ↦ current c s' slot = current c s slot

def Quiet (c : Config V) (slot : Slot) (s : State V) (a : Act V) : Prop := quiet c slot s a = true

instance (s : State V) (a : Act V) : Decidable (Quiet c slot s a) :=
  inferInstanceAs (Decidable (_ = true))

/-- No reader of the slot holds an answer that is out of date. -/
def NoLateReader (c : Config V) (slot : Slot) (s : State V) : Prop :=
  ∀ i row, (s.ops i).call = .resolveSetting → (s.ops i).slot = slot → (s.ops i).pc = .read row →
    State.valueOf c slot.2 row = current c s slot

/-- Every entry of the cache expires in time. -/
def Expiring (s : State V) : Prop := ∀ slot y, s.cache slot = some y → y.2 ≤ s.now + State.cacheTtl

/-- What a step does to the clock and to the cache: an entry is old, or it is what a reader has
read. -/
theorem step_cache (h : step c s a = some s') :
    s.now ≤ s'.now ∧ ∀ slot y, s'.cache slot = some y →
      s.cache slot = some y ∨
        ∃ i row, (s.ops i).call = .resolveSetting ∧ (s.ops i).slot = slot ∧
          (s.ops i).pc = .read row ∧
          y = (State.valueOf c slot.2 row, s.now + State.cacheTtl) := by
  cases a with
  | call i call slot =>
      simp only [step, Option.ite_none_right_eq_some, Option.some.injEq] at h
      obtain ⟨-, rfl⟩ := h
      exact ⟨Nat.le_refl _, fun _ _ hy ↦ .inl hy⟩
  | select i =>
      simp only [step, Option.ite_none_right_eq_some, Option.some.injEq] at h
      obtain ⟨-, rfl⟩ := h
      exact ⟨Nat.le_refl _, fun _ _ hy ↦ .inl hy⟩
  | commit i =>
      simp only [step] at h
      split at h
      · obtain rfl := Option.some.inj h
        rw [State.commitUpsert]
        split
        · exact ⟨Nat.le_refl _, fun _ _ hy ↦ .inl hy⟩
        · exact ⟨Nat.le_refl _, fun _ _ hy ↦ .inl hy⟩
      · obtain rfl := Option.some.inj h
        exact ⟨Nat.le_refl _, fun _ _ hy ↦ .inl hy⟩
      · cases h
  | resume i =>
      have hinvalidate : ∀ slot y, (s.invalidate i).cache slot = some y → s.cache slot = some y := by
        intro slot y hy
        by_cases hslot : slot = (s.ops i).slot
        · subst hslot
          simp [State.invalidate, State.setPc] at hy
        · simpa [State.invalidate, State.setPc, hslot] using hy
      simp only [step] at h
      split at h
      · next row hcall hpc =>
          obtain rfl := Option.some.inj h
          refine ⟨Nat.le_refl _, ?_⟩
          intro slot y hy
          by_cases hslot : slot = (s.ops i).slot
          · subst hslot
            simp only [State.fill, State.setPc, Function.update_self, Option.some.injEq] at hy
            exact .inr ⟨i, row, hcall, rfl, hpc, hy.symm⟩
          · simp only [State.fill, State.setPc, Function.update_of_ne hslot] at hy
            exact .inl hy
      all_goals first
        | cases h; done
        | obtain rfl := Option.some.inj h
          exact ⟨Nat.le_refl _, fun slot y hy ↦ .inl (hinvalidate slot y hy)⟩
  | tick =>
      obtain rfl := Option.some.inj h
      exact ⟨Nat.le_succ _, fun _ _ hy ↦ .inl hy⟩

theorem expiring_of_reachable {x : State V × History V} (h : (process c).Reachable x) :
    Expiring x.1 := by
  apply h.invariant (P := fun x ↦ Expiring x.1)
  · rintro slot y ⟨⟩
  · intro x a x' hx _ hn
    obtain ⟨s', hs, rfl⟩ := Option.map_eq_some_iff.mp hn
    obtain ⟨hnow, hcache⟩ := step_cache hs
    intro slot y hy
    rcases hcache slot y hy with hold | ⟨i, row, -, -, -, rfl⟩
    · exact Nat.le_trans (hx slot y hold) (Nat.add_le_add_right hnow _)
    · exact Nat.add_le_add_right hnow _

/-- What a step does to the operation of a reader. -/
theorem step_reader (h : step c s a = some s') (hcall : (s'.ops i).call = .resolveSetting) :
    (s'.ops i = s.ops i) ∨
      ((s.ops i).pc = .absent ∧ ((s'.ops i).pc = .begun ∨
        ∃ u, s.cacheGet (s'.ops i).slot = some u ∧ (s'.ops i).pc = .returned (some u))) ∨
      ((s.ops i).call = .resolveSetting ∧ (s'.ops i).slot = (s.ops i).slot ∧
        (s'.ops i).pc = .read (s.table (s.ops i).slot)) ∨
      ∃ row, (s.ops i).call = .resolveSetting ∧ (s'.ops i).slot = (s.ops i).slot ∧
        (s.ops i).pc = .read row ∧
        (s'.ops i).pc = .returned (some (State.valueOf c (s.ops i).slot.2 row)) := by
  cases a with
  | call j call slot =>
      simp only [step, Option.ite_none_right_eq_some, Option.some.injEq] at h
      obtain ⟨habsent, rfl⟩ := h
      by_cases hij : i = j
      · subst hij
        simp only [State.call, Function.update_self] at hcall ⊢
        subst hcall
        refine .inr (.inl ⟨habsent, ?_⟩)
        simp only
        cases hget : s.cacheGet slot with
        | none => exact .inl rfl
        | some u => exact .inr ⟨u, rfl, rfl⟩
      · exact .inl (Function.update_of_ne hij _ _)
  | select j =>
      simp only [step, Option.ite_none_right_eq_some, Option.some.injEq] at h
      obtain ⟨-, rfl⟩ := h
      by_cases hij : i = j
      · subst hij
        rw [setPc_self] at hcall ⊢
        exact .inr (.inr (.inl ⟨hcall, rfl, rfl⟩))
      · exact .inl (setPc_of_ne hij)
  | commit j =>
      have hne : (s.ops j).call ≠ .resolveSetting → i = j → (s.ops i).call ≠ .resolveSetting := by
        rintro hj rfl
        exact hj
      simp only [step] at h
      split at h
      · next v u row hj hpc =>
          obtain rfl := Option.some.inj h
          by_cases hij : i = j
          · subst hij
            rw [State.commitUpsert] at hcall
            split at hcall
            · rw [setPc_self, hj] at hcall
              cases hcall
            · rw [setPc_self] at hcall
              cases hj.symm.trans hcall
          · rw [State.commitUpsert]
            split
            · exact .inl (setPc_of_ne hij)
            · exact .inl (setPc_of_ne hij)
      · next r hj hpc =>
          obtain rfl := Option.some.inj h
          by_cases hij : i = j
          · subst hij
            rw [State.commitDelete, setPc_self] at hcall
            cases hj.symm.trans hcall
          · exact .inl (setPc_of_ne hij)
      · cases h
  | resume j =>
      simp only [step] at h
      by_cases hij : i = j
      · subst hij
        split at h
        · next row hj hpc =>
            obtain rfl := Option.some.inj h
            refine .inr (.inr (.inr ⟨row, hj, ?_, hpc, ?_⟩))
            · rw [State.fill, setPc_self]
            · rw [State.fill, setPc_self]
        · next hj hpc =>
            obtain rfl := Option.some.inj h
            rw [State.invalidate, setPc_self] at hcall
            cases hj.symm.trans hcall
        · next hj hpc =>
            obtain rfl := Option.some.inj h
            rw [State.invalidate, setPc_self] at hcall
            cases hj.symm.trans hcall
        · next hj hpc =>
            obtain rfl := Option.some.inj h
            rw [State.invalidate, setPc_self] at hcall
            cases hj.symm.trans hcall
        · cases h
      · split at h
        · obtain rfl := Option.some.inj h
          exact .inl (setPc_of_ne hij)
        · obtain rfl := Option.some.inj h
          exact .inl (setPc_of_ne hij)
        · obtain rfl := Option.some.inj h
          exact .inl (setPc_of_ne hij)
        · obtain rfl := Option.some.inj h
          exact .inl (setPc_of_ne hij)
        · cases h
  | tick =>
      obtain rfl := Option.some.inj h
      exact .inl rfl

/-- The value is in force, no reader will store another, and an entry with another expires by
the time `n`. -/
structure Settling (c : Config V) (slot : Slot) (v : V) (n : Nat) (s : State V) : Prop where
  table : current c s slot = v
  readers : ∀ i row, (s.ops i).call = .resolveSetting → (s.ops i).slot = slot →
    (s.ops i).pc = .read row → State.valueOf c slot.2 row = v
  cache : ∀ y, s.cache slot = some y → y.1 = v ∨ y.2 ≤ n

theorem Settling.step (h : Settling c slot v n s) (hq : Quiet c slot s a)
    (hn : step c s a = some s') : Settling c slot v n s' where
  table := by
    rw [Quiet, quiet, hn, Option.all_some, decide_eq_true_eq] at hq
    rw [hq, h.table]
  readers i row hcall hslot hpc := by
    rcases step_reader hn hcall with heq | ⟨-, hbegun | ⟨u, -, hu⟩⟩ | ⟨-, hs, hread⟩ |
      ⟨row', -, -, -, hret⟩
    · rw [heq] at hcall hslot hpc
      exact h.readers i row hcall hslot hpc
    · rw [hpc] at hbegun
      cases hbegun
    · rw [hpc] at hu
      cases hu
    · -- the answer is the row of the table
      rw [hpc] at hread
      cases hread
      rw [hslot] at hs
      subst hs
      exact h.table
    · rw [hpc] at hret
      cases hret
  cache y hy := by
    rcases (step_cache hn).2 slot y hy with hold | ⟨i, row, hcall, hslot, hpc, rfl⟩
    · exact h.cache y hold
    · exact .inl (h.readers i row hcall hslot hpc)

theorem Settling.steps (h : Settling c slot v n s) (hs : (machine c).Steps (Quiet c slot) s s') :
    Settling c slot v n s' ∧ s.now ≤ s'.now := by
  induction hs with
  | refl => exact ⟨h, Nat.le_refl _⟩
  | tail _ hstep ih =>
      obtain ⟨a, hq, hn⟩ := hstep
      exact ⟨ih.1.step hq hn, Nat.le_trans ih.2 (step_cache hn).1⟩

/-- A call that has not begun, or a reader of the slot that returns the value. -/
def Returns (i : OpId) (slot : Slot) (v : V) (s : State V) : Prop :=
  (s.ops i).call = .resolveSetting → (s.ops i).slot = slot →
    ∀ w, (s.ops i).pc = .returned w → w = some v

theorem Returns.step (h : Settling c slot v n s) (hnow : n ≤ s.now) (hi : Returns i slot v s)
    (hn : AppSettings.step c s a = some s') : Returns i slot v s' := by
  intro hcall hslot w hpc
  rcases step_reader hn hcall with heq | ⟨-, hbegun | ⟨u, hget, hu⟩⟩ | ⟨-, -, hread⟩ |
    ⟨row, hcall', hs, hread, hret⟩
  · rw [heq] at hcall hslot hpc
    exact hi hcall hslot w hpc
  · rw [hpc] at hbegun
    cases hbegun
  · -- an entry with another value has expired
    rw [hslot] at hget
    obtain ⟨y, hy, hlive⟩ := Option.bind_eq_some_iff.mp hget
    rw [hpc] at hu
    cases hu
    split at hlive
    · cases hlive
    · cases hlive
      exact congrArg some ((h.cache y hy).resolve_right (by omega))
  · rw [hpc] at hread
    cases hread
  · rw [hpc] at hret
    cases hret
    rw [hslot] at hs
    subst hs
    exact congrArg some (h.readers i row hcall' rfl hread)

theorem Returns.steps (h : Settling c slot v n s) (hnow : n ≤ s.now) (hi : Returns i slot v s)
    (hs : (machine c).Steps (Quiet c slot) s s') : Returns i slot v s' := by
  induction hs with
  | refl => exact hi
  | tail hpre hstep ih =>
      obtain ⟨a, -, hn⟩ := hstep
      obtain ⟨hb, hle⟩ := h.steps hpre
      exact ih.step hb (Nat.le_trans hnow hle) hn

end Settle

/-! ## The page and the resolver -/

variable {env : Env} {s : State Value} {team : String} {item : Item}

/-- The page shows each setting once, with the value in the table; an override is of the type of
the setting and within the bounds that are shown, and what is no override is as configured. -/
theorem resolveAll_spec (env : Env) (x : State Value × History Value)
    (h : (process (settingsConfig env)).Reachable x) (team : String) :
    (resolveAll env x.1 team).map Item.key = whitelist.map SettingSpec.key ∧
    ∀ item ∈ resolveAll env x.1 team,
      item.value = current (settingsConfig env) x.1 (team, item.key) ∧
      (item.source = .override → item.value.kind = item.default.kind ∧
        item.minVal ≤ item.value.toRat ∧ item.value.toRat ≤ item.maxVal) ∧
      (item.source ≠ .override → item.value = env.value item.key ∧
        (item.source = .default ↔ item.value.toRat = item.default.toRat)) := by
  refine ⟨by rw [resolveAll, List.map_map]; rfl, ?_⟩
  intro item hitem
  obtain ⟨spec, hspec, rfl⟩ := List.mem_map.mp hitem
  have hkind : ∀ spec ∈ whitelist, spec.kind = spec.default.kind ∧
      whitelist.find? (fun other ↦ other.key = spec.key) = some spec := by
    with_unfolding_all decide
  obtain ⟨hkind, hfind⟩ := hkind spec hspec
  cases hrow : x.1.table (team, spec.key) with
  | none =>
      refine ⟨?_, ?_, ?_⟩
      · simp only [current, hrow]
        rfl
      · intro hsource
        simp only at hsource
        split at hsource <;> cases hsource
      · intro _
        refine ⟨rfl, ?_⟩
        simp only
        split
        · next hne => exact ⟨fun hsource ↦ by (cases hsource), fun heq ↦ absurd heq hne⟩
        · next heq => exact ⟨fun _ ↦ not_not.mp heq, fun _ ↦ rfl⟩
  | some row =>
      have hvalid := (valid_of_reachable h).table _ row hrow
      simp only [settingsConfig, validate, hfind, Bool.and_eq_true, decide_eq_true_eq] at hvalid
      refine ⟨?_, fun _ ↦ ⟨hvalid.1.1.trans hkind, hvalid.1.2, hvalid.2⟩, fun hno ↦ absurd rfl hno⟩
      simp only [current, hrow]
      rfl

/-- **The resolver settles.**  Let no reader of a setting hold an answer that is out of date, and
let no step change the setting from then on.  When `_CACHE_TTL_SECONDS` have passed, a call of
`resolve_setting` that begins returns what the page shows. -/
theorem resolve_agrees (env : Env) (x : State Value × History Value)
    (h : (process (settingsConfig env)).Reachable x) (team : String) (spec : SettingSpec)
    (hspec : spec ∈ whitelist)
    (hreaders : NoLateReader (settingsConfig env) (team, spec.key) x.1) (s₁ s₂ : State Value)
    (h₁ : (machine (settingsConfig env)).Steps (Quiet (settingsConfig env) (team, spec.key)) x.1 s₁)
    (htime : x.1.now + State.cacheTtl ≤ s₁.now)
    (h₂ : (machine (settingsConfig env)).Steps (Quiet (settingsConfig env) (team, spec.key)) s₁ s₂)
    (i : OpId) (hbegin : (s₁.ops i).pc = .absent) (hcall : (s₂.ops i).call = .resolveSetting)
    (hslot : (s₂.ops i).slot = (team, spec.key)) (w : Option Value)
    (hreturn : (s₂.ops i).pc = .returned w) :
    ∃ item ∈ resolveAll env s₂ team, item.key = spec.key ∧ w = some item.value := by
  have hstart : Settling (settingsConfig env) (team, spec.key)
      (current (settingsConfig env) x.1 (team, spec.key)) (x.1.now + State.cacheTtl) x.1 :=
    ⟨rfl, hreaders, fun y hy ↦ .inr (expiring_of_reachable h _ y hy)⟩
  obtain ⟨hmid, -⟩ := hstart.steps h₁
  obtain ⟨hend, -⟩ := hmid.steps h₂
  have hret : Returns i (team, spec.key) (current (settingsConfig env) x.1 (team, spec.key)) s₁ := by
    intro _ _ w hw
    rw [hbegin] at hw
    cases hw
  have hw := (hret.steps hmid htime h₂) hcall hslot w hreturn
  refine ⟨_, List.mem_map.mpr ⟨spec, hspec, rfl⟩, rfl, ?_⟩
  rw [hw, ← hend.table]
  simp only [current]
  cases s₂.table (team, spec.key) with
  | none => rfl
  | some row => rfl

/-- Time passes. -/
theorem steps_tick (c : Config Value) (slot : Slot) (s : State Value) (n : Nat) :
    (machine c).Steps (Quiet c slot) s { s with now := s.now + n } := by
  induction n with
  | zero => exact .refl
  | succ n ih =>
      refine ih.tail ⟨.tick, ?_, rfl⟩
      rw [Quiet, quiet, step, Option.all_some, decide_eq_true_eq]
      rfl

/-- A computed run. -/
theorem steps_of_exec {c : Config Value} {slot : Slot} {l : List (Act Value)} {s s' : State Value}
    (h : (machine c).exec (Quiet c slot) s l = some s') :
    (machine c).Steps (Quiet c slot) s s' := by
  induction l generalizing s with
  | nil =>
      cases h
      exact .refl
  | cons a l ih =>
      simp only [System.exec, Option.ite_none_right_eq_some] at h
      obtain ⟨hq, h⟩ := h
      obtain ⟨t, ht, h⟩ := Option.bind_eq_some_iff.mp h
      exact Relation.ReflTransGen.head ⟨a, hq, ht⟩ (ih h)

/-- A reader stores an answer that is out of date, after an upsert. -/
def lateReader : List (Act Value) :=
  [.call 0 .resolveSetting ("team-1", "rag_top_k"), .select 0] ++ upsert 1 "rag_top_k" 2 ++
    [.resume 0, .call 2 .resolveSetting ("team-1", "rag_top_k")]

theorem exec_lateReader : ((process (settingsConfig repoEnv)).exec (fun _ _ ↦ True)
    (process (settingsConfig repoEnv)).init lateReader).isSome = true := by
  decide

/-- After the run `lateReader`. -/
def lateState : State Value × History Value := Option.get _ exec_lateReader

/-- The same, when the entry has expired. -/
def laterState : State Value := { lateState.1 with now := lateState.1.now + State.cacheTtl }

/-- A reader that begins then. -/
def lateRead : List (Act Value) :=
  [.call 3 .resolveSetting ("team-1", "rag_top_k"), .select 3, .resume 3]

theorem exec_lateRead : ((machine (settingsConfig repoEnv)).exec
    (Quiet (settingsConfig repoEnv) ("team-1", "rag_top_k")) laterState lateRead).isSome = true := by
  decide

/-- `resolve_agrees` after a read that was out of date. -/
theorem resolve_lateReader :
    (lateState.1.ops 2).pc = .returned (some (.int 0)) ∧
    ∃ s₂ : State Value, (s₂.ops 3).pc = .returned (some (.int 2)) ∧
      ∃ item ∈ resolveAll repoEnv s₂ "team-1", item.key = "rag_top_k" ∧
        (some (.int 2) : Option Value) = some item.value := by
  refine ⟨by decide, Option.get _ exec_lateRead, by decide, ?_⟩
  have hx : (process (settingsConfig repoEnv)).Reachable lateState :=
    System.Reach.exec_reach .init (Option.some_get exec_lateReader).symm
  have hno : NoLateReader (settingsConfig repoEnv) ("team-1", "rag_top_k") lateState.1 := by
    intro i row hcall hslot hpc
    match i with
    | 0 | 1 | 2 => cases hpc
    | i + 3 =>
        have habsent : (lateState.1.ops (i + 3)).pc = .absent := rfl
        rw [habsent] at hpc
        cases hpc
  exact resolve_agrees repoEnv lateState hx "team-1" ⟨"rag_top_k", .int, .int 5, 1, 50⟩ (by decide)
    hno laterState _ (steps_tick _ _ _ _) (Nat.le_refl _)
    (steps_of_exec (Option.some_get exec_lateRead).symm) 3 (by decide) (by decide) (by decide) _
    (by decide)

end Adapta.AppSettings
