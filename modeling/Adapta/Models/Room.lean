import Mathlib.Order.Nat
import Mathlib.Data.Nat.Find
import Adapta.Models.Locks

/-!
# Who stays when room is made

`_make_room_for` and `_evict_lru_if_needed` remove entries one at a time, each time the least
recently used one, until the cap and the memory budget are met.  Here their outcome is given in
terms of the tables before: the keys that stay are a first part of the keys in order of use, as
long as the limits leave it (`stay`), and every key that leaves, other than the one that is
being loaded again, puts down the flag of its base (`Purged`).
-/

namespace Adapta.Models.Room

variable {S : Settings} {m m' m₁ m₂ : Manager} {key k : String}

/-! ## The keys that stay -/

/-- How many keys the cap leaves when `key` is to be inserted. -/
def capRoom (S : Settings) (m : Manager) (key : String) : Nat :=
  if key ∈ m.models then m.models.keys.length
  else min m.models.keys.length (S.maxLoadedModels - 1)

/-- The `n` most recently used keys fit into the memory budget beside `key`. -/
def withinBudget (S : Settings) (m : Manager) (key : String) (costMb : Option Nat) (n : Nat) :
    Bool :=
  match S.budgetMb, costMb with
  | some budget, some cost =>
      (((m.models.keys.take n).filter (· ≠ key)).map fun k ↦ (m.costs k).getD 0).sum + cost ≤
        budget
  | _, _ => true

/-- The keys that stay when room is made for `key`: the most recently used ones, as many as the
cap and the budget leave. -/
def stay (S : Settings) (m : Manager) (key : String) (costMb : Option Nat) : List String :=
  m.models.keys.take
    (Nat.findGreatest (fun n ↦ withinBudget S m key costMb n = true) (capRoom S m key))

theorem length_stay_lt {costMb : Option Nat} (hkey : key ∉ m.models)
    (hcap : 0 < S.maxLoadedModels) : (stay S m key costMb).length < S.maxLoadedModels := by
  have hle := Nat.findGreatest_le (P := fun n ↦ withinBudget S m key costMb n = true)
    (capRoom S m key)
  rw [stay, List.length_take]
  rw [capRoom, if_neg hkey] at hle ⊢
  omega

theorem keys_erase_lru (h : m.lru = some k) :
    (m.models.erase k).keys = m.models.keys.dropLast := by
  have hkeys := m.models.keys_nodup
  obtain ⟨l, hl⟩ := List.getLast?_eq_some_iff.mp h
  rw [hl] at hkeys
  have hnot : k ∉ l := by
    intro hk
    exact (List.nodup_append.mp hkeys).2.2 k hk k List.mem_cons_self rfl
  rw [AList.keys_erase, hl, List.erase_append_right _ hnot, List.erase_cons_head,
    List.dropLast_concat, List.append_nil]

/-- The cap leaves the most recently used keys. -/
theorem keys_evictLruLoop (n : Nat) (hn : m.models.keys.length < n) :
    (Manager.evictLruLoop S n m).1.models.keys =
      m.models.keys.take (min m.models.keys.length (S.maxLoadedModels - 1)) := by
  induction n generalizing m with
  | zero => exact absurd hn (Nat.not_lt_zero _)
  | succ n ih =>
      rw [Manager.evictLruLoop]
      split
      · next hlen =>
          rw [Nat.min_eq_left (by omega), List.take_length]
      · next hlen =>
          split
          · next hlru =>
              rw [Manager.lru, List.getLast?_eq_none_iff] at hlru
              simp [hlru]
          · next k hlru =>
              have hpos := List.length_pos_of_mem (AList.mem_keys.mp (Manager.mem_of_lru hlru))
              have hkeys : (m.dropKey S k).models.keys = m.models.keys.dropLast :=
                keys_erase_lru hlru
              rw [ih (by rw [hkeys, List.length_dropLast]; omega), hkeys, List.length_dropLast,
                List.dropLast_eq_take, List.take_take]
              congr 1
              omega

/-- The budget leaves the most recently used keys of `l`, of which `n` are left. -/
theorem keys_makeRoomLoop {cost budget n : Nat} {l : List String} {costs : String → Option Nat}
    {fits : Nat → Bool} (hfits : ∀ n, fits n = true ↔
      (((l.take n).filter (· ≠ key)).map fun k ↦ (costs k).getD 0).sum + cost ≤ budget)
    (hn : n ≤ l.length) (hm : m.models.keys = l.take n) (hc : m.costs = costs) :
    (Manager.makeRoomLoop S key cost budget n m).models.keys =
      l.take (Nat.findGreatest (fun n ↦ fits n = true) n) := by
  induction n generalizing m with
  | zero => simpa [Manager.makeRoomLoop] using hm
  | succ n ih =>
      have hused : m.used key + cost ≤ budget ↔ fits (n + 1) = true := by
        rw [hfits, Manager.used, hm, hc]
      have hlen : m.models.keys.length = n + 1 := by
        rw [hm, List.length_take]
        omega
      rw [Manager.makeRoomLoop]
      split
      · next hlru =>
          rw [Manager.lru, List.getLast?_eq_none_iff] at hlru
          rw [hlru] at hlen
          cases hlen
      · next old hlru =>
          have hrest : (m.models.erase old).keys = l.take n := by
            rw [keys_erase_lru hlru, List.dropLast_eq_take, hlen, hm, List.take_take]
            congr 1
            omega
          split
          · next hle => rw [Nat.findGreatest_eq (hused.mp hle), hm]
          · next hle =>
              rw [Nat.findGreatest_of_not fun h ↦ hle (hused.mpr h)]
              split
              · next heq =>
                  subst heq
                  exact ih (by omega) hrest hc
              · exact ih (by omega) hrest hc

/-! ## What leaving keys do to the flags -/

/-- Keys have left, and each of them but `key` has put down the flag of its base. -/
structure Purged (S : Settings) (key : String) (m m' : Manager) : Prop where
  subset : ∀ k ∈ m'.models, k ∈ m.models
  loaded : ∀ b, m'.loaded b = true ↔ m.loaded b = true ∧ ∀ k ∈ m.models, k ∉ m'.models →
    k ≠ key → (S.configs (baseOf k)).isSome = true → baseOf k ≠ b

namespace Purged

theorem of_eq (hm : m'.models = m.models) (hl : m'.loaded = m.loaded) : Purged S key m m' where
  subset k hk := hm ▸ hk
  loaded b := by
    rw [hl]
    refine ⟨fun h ↦ ⟨h, fun k hk hgone ↦ absurd (hm ▸ hk) hgone⟩, And.left⟩

theorem trans (h₁ : Purged S key m m₁) (h₂ : Purged S key m₁ m₂) : Purged S key m m₂ where
  subset k hk := h₁.subset k (h₂.subset k hk)
  loaded b := by
    rw [h₂.loaded, h₁.loaded]
    constructor
    · rintro ⟨⟨hb, hgone₁⟩, hgone₂⟩
      refine ⟨hb, ?_⟩
      intro k hk hgone
      by_cases hk₁ : k ∈ m₁.models
      · exact hgone₂ k hk₁ hgone
      · exact hgone₁ k hk hk₁
    · rintro ⟨hb, hgone⟩
      exact ⟨⟨hb, fun k hk hk₁ ↦ hgone k hk fun hk₂ ↦ hk₁ (h₂.subset k hk₂)⟩,
        fun k hk hk₂ ↦ hgone k (h₁.subset k hk) hk₂⟩

theorem dropKey (hk : k ∈ m.models) (hne : k ≠ key) : Purged S key m (m.dropKey S k) where
  subset k' hk' := (AList.mem_erase.mp hk').2
  loaded b := by
    have hgone : ∀ k' ∈ m.models, k' ∉ (m.dropKey S k).models → k' = k := by
      intro k' hk' hno
      by_contra hne'
      exact hno (AList.mem_erase.mpr ⟨hne', hk'⟩)
    have hself : k ∉ (m.dropKey S k).models := fun h ↦ (AList.mem_erase.mp h).1 rfl
    by_cases hbase : (S.configs (baseOf k)).isSome = true
    · have hflag : (m.dropKey S k).loaded = Function.update m.loaded (baseOf k) false :=
        if_pos hbase
      rw [hflag]
      by_cases hb : b = baseOf k
      · subst hb
        simp only [Function.update_self, Bool.false_eq_true, false_iff]
        rintro ⟨-, hall⟩
        exact hall k hk hself hne hbase rfl
      · rw [Function.update_of_ne hb]
        refine ⟨fun h ↦ ⟨h, ?_⟩, And.left⟩
        intro k' hk' hno _ _
        rw [hgone k' hk' hno]
        exact Ne.symm hb
    · have hflag : (m.dropKey S k).loaded = m.loaded := if_neg hbase
      rw [hflag]
      refine ⟨fun h ↦ ⟨h, ?_⟩, And.left⟩
      intro k' hk' hno _ hbase'
      rw [hgone k' hk' hno] at hbase'
      exact absurd hbase' hbase

theorem popReplaced : Purged S key m (m.popReplaced key) where
  subset k hk := (AList.mem_erase.mp hk).2
  loaded b := by
    refine ⟨fun h ↦ ⟨h, ?_⟩, And.left⟩
    intro k hk hno hne
    exact absurd (AList.mem_erase.mpr ⟨hne, hk⟩) hno

theorem evictLruLoop (n : Nat) (hkey : key ∉ m.models) :
    Purged S key m (Manager.evictLruLoop S n m).1 := by
  induction n generalizing m with
  | zero => exact of_eq rfl rfl
  | succ n ih =>
      rw [Manager.evictLruLoop]
      split
      · exact of_eq rfl rfl
      · split
        · exact of_eq rfl rfl
        · next k hk =>
            have hmem := Manager.mem_of_lru hk
            have hdrop : Purged S key m (m.dropKey S k) :=
              dropKey hmem fun heq ↦ hkey (heq ▸ hmem)
            exact hdrop.trans (ih fun h ↦ hkey (hdrop.subset key h))

theorem makeRoomLoop {cost budget : Nat} (n : Nat) :
    Purged S key m (Manager.makeRoomLoop S key cost budget n m) := by
  induction n generalizing m with
  | zero => exact of_eq rfl rfl
  | succ n ih =>
      rw [Manager.makeRoomLoop]
      split
      · exact of_eq rfl rfl
      · next old hold =>
          split
          · exact of_eq rfl rfl
          · split
            · exact popReplaced.trans ih
            · next hne => exact (dropKey (Manager.mem_of_lru hold) hne).trans ih

end Purged

/-- The budget and the estimate, if there is a budget, let `_make_room_for` begin to evict. -/
def affordable (S : Settings) (costMb : Option Nat) : Bool :=
  S.budgetMb.all fun budget ↦ costMb.any (· ≤ budget)

theorem costs_evictLruIfNeeded : (m.evictLruIfNeeded S).1.costs = m.costs :=
  Manager.evictLruLoop_preserves (P := fun m' ↦ m'.costs = m.costs) (fun _ _ _ h ↦ h) _ _ rfl

/-- The recorded cost of `key` itself does not count. -/
theorem withinBudget_iff (m : Manager) (key : String) (cost : Nat) (c : Option Nat) (n : Nat)
    {budget : Nat} (hb : S.budgetMb = some budget) :
    withinBudget S m key (some cost) n = true ↔
      (((m.models.keys.take n).filter (· ≠ key)).map fun k ↦
        (Function.update m.costs key c k).getD 0).sum + cost ≤ budget := by
  have hmap : ((m.models.keys.take n).filter (· ≠ key)).map
      (fun k ↦ (Function.update m.costs key c k).getD 0) =
      ((m.models.keys.take n).filter (· ≠ key)).map fun k ↦ (m.costs k).getD 0 := by
    apply List.map_congr_left
    intro k hk
    have hne : k ≠ key := by simpa using (List.mem_filter.mp hk).2
    rw [Function.update_of_ne hne]
  simp only [hmap, withinBudget, hb, decide_eq_true_eq]

/-- `_make_room_for` without a budget: only the cap counts. -/
theorem makeRoomFor_of_none {costMb : Option Nat} (hb : S.budgetMb = none) :
    (m.makeRoomFor S key costMb).1.models.keys = stay S m key costMb ∧
      Purged S key m (m.makeRoomFor S key costMb).1 ∧
      (key ∈ m.models → (m.makeRoomFor S key costMb).2 = none) := by
  have hstay : stay S m key costMb = m.models.keys.take (capRoom S m key) := by
    rw [stay, Nat.findGreatest_eq]
    simp [withinBudget, hb]
  let m₁ : Manager := { m with costs := Function.update m.costs key (some 0) }
  have hcosts : Purged S key m m₁ := .of_eq rfl rfl
  by_cases hkey : key ∈ m.models
  · have hroom : m.makeRoomFor S key costMb = (m₁, none) := by
      simp only [Manager.makeRoomFor, hb]
      exact if_pos hkey
    rw [hroom, hstay, capRoom, if_pos hkey, List.take_length]
    exact ⟨rfl, hcosts, fun _ ↦ rfl⟩
  · have hroom : (m.makeRoomFor S key costMb).1 = (m₁.evictLruIfNeeded S).1 := by
      simp only [Manager.makeRoomFor, hb]
      rw [if_neg hkey]
    refine ⟨?_, ?_, fun h ↦ absurd h hkey⟩
    · rw [hroom, Manager.evictLruIfNeeded, keys_evictLruLoop _ (Nat.lt_succ_self _),
        hstay, capRoom, if_neg hkey]
    · rw [hroom]
      exact hcosts.trans (Purged.evictLruLoop _ hkey)

/-- `_make_room_for` with a budget that the model fits into by itself. -/
theorem makeRoomFor_of_some {cost budget : Nat} (hb : S.budgetMb = some budget)
    (hle : cost ≤ budget) :
    (m.makeRoomFor S key (some cost)).1.models.keys = stay S m key (some cost) ∧
      Purged S key m (m.makeRoomFor S key (some cost)).1 ∧
      (key ∈ m.models → (m.makeRoomFor S key (some cost)).2 = none) := by
  let m₁ : Manager := { m with costs := Function.update m.costs key (some cost) }
  have hcosts : Purged S key m m₁ := .of_eq rfl rfl
  have hfits := fun n ↦ withinBudget_iff m key cost (some cost) n hb
  by_cases hkey : key ∈ m.models
  · have hroom : m.makeRoomFor S key (some cost) =
        (Manager.makeRoomLoop S key cost budget m.models.keys.length m₁, none) := by
      simp only [Manager.makeRoomFor, hb]
      rw [if_neg (Nat.not_lt.mpr hle), if_pos hkey]
    rw [hroom]
    refine ⟨?_, hcosts.trans (Purged.makeRoomLoop _), fun _ ↦ rfl⟩
    rw [keys_makeRoomLoop (m := m₁) hfits le_rfl (List.take_length).symm rfl, stay,
      capRoom, if_pos hkey]
  · have hevict : Purged S key m₁ (m₁.evictLruIfNeeded S).1 := Purged.evictLruLoop _ hkey
    have hkeys : (m₁.evictLruIfNeeded S).1.models.keys = m.models.keys.take (capRoom S m key) := by
      rw [capRoom, if_neg hkey]
      exact keys_evictLruLoop _ (Nat.lt_succ_self _)
    by_cases hok : (m₁.evictLruIfNeeded S).2 = true
    · have hroom : (m.makeRoomFor S key (some cost)).1 = Manager.makeRoomLoop S key cost budget
          (m₁.evictLruIfNeeded S).1.models.keys.length (m₁.evictLruIfNeeded S).1 := by
        simp only [Manager.makeRoomFor, hb]
        rw [if_neg (Nat.not_lt.mpr hle), if_neg hkey, if_pos hok]
      have hlen : (m₁.evictLruIfNeeded S).1.models.keys.length = capRoom S m key := by
        rw [hkeys, List.length_take, capRoom, if_neg hkey]
        omega
      have hroomLe : capRoom S m key ≤ m.models.keys.length := by
        rw [capRoom, if_neg hkey]
        exact Nat.min_le_left _ _
      refine ⟨?_, ?_, fun h ↦ absurd h hkey⟩
      · rw [hroom, hlen,
          keys_makeRoomLoop hfits hroomLe hkeys costs_evictLruIfNeeded, stay]
      · rw [hroom]
        exact (hcosts.trans hevict).trans (Purged.makeRoomLoop _)
    · -- a cap of zero: everything has left, and `popitem` raises
      have hroom : (m.makeRoomFor S key (some cost)).1 = (m₁.evictLruIfNeeded S).1 := by
        simp only [Manager.makeRoomFor, hb]
        rw [if_neg (Nat.not_lt.mpr hle), if_neg hkey, if_neg hok]
      have hcap : capRoom S m key = 0 := by
        rw [Manager.evictLruIfNeeded_ok] at hok
        rw [capRoom, if_neg hkey]
        omega
      refine ⟨?_, ?_, fun h ↦ absurd h hkey⟩
      · rw [hroom, hkeys, stay, hcap, Nat.findGreatest_zero]
      · rw [hroom]
        exact hcosts.trans hevict

/-- `_make_room_for`, once it has come to evict: who stays is as `stay` tells. -/
theorem makeRoomFor_spec (m : Manager) (key : String) {costMb : Option Nat}
    (h : affordable S costMb = true) :
    (m.makeRoomFor S key costMb).1.models.keys = stay S m key costMb ∧
      Purged S key m (m.makeRoomFor S key costMb).1 ∧
      (key ∈ m.models → (m.makeRoomFor S key costMb).2 = none) := by
  cases hb : S.budgetMb with
  | none => exact makeRoomFor_of_none hb
  | some budget =>
      rw [affordable, hb, Option.all_some] at h
      cases costMb with
      | none => cases h
      | some cost => exact makeRoomFor_of_some hb (by simpa using h)

/-- Otherwise it raises before it removes anything. -/
theorem makeRoomFor_of_not_affordable (m : Manager) (key : String) {costMb : Option Nat}
    (h : affordable S costMb = false) :
    (m.makeRoomFor S key costMb).1.models = m.models ∧
      (m.makeRoomFor S key costMb).1.loaded = m.loaded ∧
      (m.makeRoomFor S key costMb).2 ≠ none := by
  cases hb : S.budgetMb with
  | none =>
      rw [affordable, hb] at h
      cases h
  | some budget =>
      cases costMb with
      | none => simp [Manager.makeRoomFor, hb]
      | some cost =>
          rw [affordable, hb] at h
          have hlt : budget < cost := by simpa using h
          simp [Manager.makeRoomFor, hb, hlt]

end Adapta.Models.Room
