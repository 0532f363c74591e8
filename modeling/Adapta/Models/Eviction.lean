import Mathlib.Algebra.Order.BigOperators.Group.List
import Mathlib.Algebra.Order.Group.Nat
import Mathlib.Logic.Relation
import Adapta.Lib.Recency
import Adapta.Models.Locks

/-!
# What the cache holds, and what a load removes

The cache is bounded by a number of models and by a budget of memory.  A load makes room
before it constructs, awaits the construction, and makes room again before it inserts;
requests that hit the cache reorder it in the meantime.

A history of uses is added to the system: the keys of the requests that were served, newest
first.  `cache_bounded` states, for loads that are not forced, the bounds, that the order of
the dictionary is the order of last use, and that a load removes only keys that were the
least recently used ones and had to go.
-/

namespace Adapta.Models.Eviction

open Lib

variable {S : Settings} {m m' : Manager} {key k : String} {uses : List String} {l : Obj}
  {s s' : State} {i : ReqId} {a : Act}

/-! ## Statement -/

/-- The recorded costs of the resident keys. -/
def total (m : Manager) : Nat := (m.models.keys.map fun k ↦ (m.costs k).getD 0).sum

/-- The key is resident, and every other resident key has been used since. -/
def LeastRecent (uses : List String) (m : Manager) (k : String) : Prop :=
  k ∈ m.models ∧ ∀ k' ∈ m.models, k' ≠ k → uses.idxOf k' < uses.idxOf k

/-- The cap is reached, or the memory budget has no room for `key`. -/
def Forced (S : Settings) (key : String) (m : Manager) : Prop :=
  S.maxLoadedModels ≤ m.models.keys.length ∨
    ∃ b, S.budgetMb = some b ∧ b < m.used key + (m.costs key).getD 0

/-- One removal of a load of `key`. -/
def Sheds (S : Settings) (uses : List String) (key : String) (m m' : Manager) : Prop :=
  ∃ k, LeastRecent uses m k ∧ Forced S key m ∧ m' = m.dropKey S k

/-- A load of `key` has removed nothing but by such removals; the key itself may have been
inserted, or used. -/
def ShedsOnly (S : Settings) (uses : List String) (key : String) (m m' : Manager) : Prop :=
  ∃ m₀ m₁, m₀.models = m.models ∧ m₀.costs = m'.costs ∧
    Relation.ReflTransGen (Sheds S uses key) m₀ m₁ ∧
    (m'.models = m₁.models ∨ ∃ l, m'.models = m₁.models.insert key l)

/-- The request of a step. -/
def Act.req : Act → ReqId
  | .call i _ _ _ | .acquire i _ | .construct i _ => i

/-- The request was served with a model. -/
def served (q : Req) : Bool :=
  match q.pc with
  | .finished (.model _) | .finished (.handle _ _) => true
  | _ => false

/-- The history of uses, once a request has come to `q`. -/
def recordOf (S : Settings) (q : Req) (uses : List String) : List String :=
  if served q then q.key S :: uses else uses

/-- The history of uses after a step. -/
def record (S : Settings) (s : State) (a : Act) (uses : List String) : List String :=
  match step S s a with
  | some s' => recordOf S (s'.reqs (Act.req a)) uses
  | none => uses

/-- The model cache, with the history of uses. -/
def recorded (S : Settings) : System (State × List String) Act := (cache S).ghost [] (record S)

/-- No load is forced. -/
def Unforced (_ : State × List String) : Act → Prop
  | .call _ op _ _ => op.forced = false
  | _ => True

/-! ## Invariants of the tables -/

/-- The bounds and the order. -/
structure Sound (S : Settings) (uses : List String) (m : Manager) : Prop where
  length : m.models.keys.length ≤ S.maxLoadedModels
  budget : ∀ b, S.budgetMb = some b → total m ≤ b
  order : Recency uses m.models.keys

/-- There is room for `key`. -/
structure Fits (S : Settings) (key : String) (m : Manager) : Prop where
  absent : key ∉ m.models
  length : m.models.keys.length < S.maxLoadedModels
  budget : ∀ b, S.budgetMb = some b → total m + (m.costs key).getD 0 ≤ b

theorem keys_dropKey : (m.dropKey S k).models.keys = m.models.keys.erase k := AList.keys_erase k _

@[simp] theorem costs_dropKey : (m.dropKey S k).costs = m.costs := rfl

/-- A removal lowers the number and the costs of the resident keys. -/
theorem total_dropKey_le : total (m.dropKey S k) ≤ total m := by
  rw [total, total, keys_dropKey]
  exact (List.erase_sublist.map _).sum_le_sum fun _ _ ↦ Nat.zero_le _

theorem length_dropKey (hk : k ∈ m.models) :
    (m.dropKey S k).models.keys.length + 1 = m.models.keys.length := by
  have hmem : k ∈ m.models.keys := AList.mem_keys.mp hk
  rw [keys_dropKey, List.length_erase_of_mem hmem]
  have := List.length_pos_of_mem hmem
  omega

/-- A key that is not resident is not in the sum. -/
theorem used_eq_total (h : key ∉ m.models) : m.used key = total m := by
  rw [Manager.used, total, List.filter_eq_self.mpr]
  intro k hk
  simp only [ne_eq, decide_not, Bool.not_eq_eq_eq_not, Bool.not_true, decide_eq_false_iff_not]
  rintro rfl
  exact h (AList.mem_keys.mpr hk)

/-- Moving a key to the end keeps the costs. -/
theorem total_touch (hl : m.models.lookup k = some l) :
    total { m with models := m.models.insert k l } = total m := by
  have hmem : k ∈ m.models.keys := AList.mem_keys.mp (AList.lookup_isSome.mp (by simp [hl]))
  have hperm : (m.models.insert k l).keys.Perm m.models.keys := by
    rw [AList.keys_insert]
    exact (List.perm_cons_erase hmem).symm
  exact (hperm.map _).sum_eq

theorem total_insert (h : key ∉ m.models) :
    total { m with models := m.models.insert key l } = (m.costs key).getD 0 + total m := by
  have hmem : key ∉ m.models.keys := fun hk ↦ h (AList.mem_keys.mpr hk)
  simp [total, AList.keys_insert, List.erase_of_not_mem hmem]

namespace Sound

theorem dropKey (h : Sound S uses m) : Sound S uses (m.dropKey S k) where
  length := by
    rw [keys_dropKey]
    exact (List.length_erase_le).trans h.length
  budget b hb := total_dropKey_le.trans (h.budget b hb)
  order := by
    rw [keys_dropKey]
    exact h.order.sublist List.erase_sublist

/-- A hit. -/
theorem touch (h : Sound S uses m) (hl : m.models.lookup k = some l) :
    Sound S (k :: uses) { m with models := m.models.insert k l } where
  length := by
    have hmem : k ∈ m.models.keys := AList.mem_keys.mp (AList.lookup_isSome.mp (by simp [hl]))
    rw [AList.keys_insert, List.length_cons, List.length_erase_of_mem hmem]
    have := h.length
    have := List.length_pos_of_mem hmem
    omega
  budget b hb := (total_touch hl).trans_le (h.budget b hb)
  order := by
    rw [AList.keys_insert]
    exact h.order.touch k

/-- The costs of keys that are not resident do not matter. -/
theorem costs {c : String → Option Nat} (h : Sound S uses m)
    (hc : ∀ k ∈ m.models, c k = m.costs k) : Sound S uses { m with costs := c } where
  length := h.length
  budget b hb := by
    have htotal : total { m with costs := c } = total m := by
      refine congrArg List.sum (List.map_congr_left ?_)
      intro k hk
      exact congrArg (Option.getD · 0) (hc k (AList.mem_keys.mpr hk))
    exact htotal.trans_le (h.budget b hb)
  order := h.order

/-- A new model is inserted. -/
theorem insert (h : Sound S uses m) (hf : Fits S key m) :
    Sound S (key :: uses) { m with models := m.models.insert key l } where
  length := by
    have hmem : key ∉ m.models.keys := fun hk ↦ hf.absent (AList.mem_keys.mpr hk)
    rw [AList.keys_insert, List.erase_of_not_mem hmem]
    exact hf.length
  budget b hb := by
    have := hf.budget b hb
    rw [total_insert hf.absent]
    omega
  order := by
    rw [AList.keys_insert]
    exact h.order.touch key

/-- Nothing else of the tables matters. -/
theorem congr (h : Sound S uses m) (hm : m'.models = m.models) (hc : m'.costs = m.costs) :
    Sound S uses m' := by
  refine ⟨hm ▸ h.length, ?_, hm ▸ h.order⟩
  intro b hb
  rw [total, hm, hc]
  exact h.budget b hb

end Sound

namespace Fits

/-- A hit of another request. -/
theorem touch (h : Fits S key m) (hl : m.models.lookup k = some l) :
    Fits S key { m with models := m.models.insert k l } := by
  have hk : k ∈ m.models := AList.lookup_isSome.mp (by simp [hl])
  have hmem : k ∈ m.models.keys := AList.mem_keys.mp hk
  refine ⟨?_, ?_, ?_⟩
  · rw [AList.mem_insert, not_or]
    exact ⟨fun he ↦ h.absent (he ▸ hk), h.absent⟩
  · have := h.length
    have := List.length_pos_of_mem hmem
    rw [AList.keys_insert, List.length_cons, List.length_erase_of_mem hmem]
    omega
  · intro b hb
    rw [total_touch hl]
    exact h.budget b hb

theorem congr (h : Fits S key m) (hm : m'.models = m.models) (hc : m'.costs = m.costs) :
    Fits S key m' := by
  refine ⟨hm ▸ h.absent, hm ▸ h.length, ?_⟩
  intro b hb
  rw [total, hm, hc]
  exact h.budget b hb

end Fits

/-! ## The eviction loops -/

theorem leastRecent_of_lru (h : Recency uses m.models.keys) (hk : m.lru = some k) :
    LeastRecent uses m k :=
  ⟨Manager.mem_of_lru hk, fun _ hk' hne ↦ h.lt_of_getLast? hk (AList.mem_keys.mp hk') hne⟩

/-- What one removal preserves, a chain of removals preserves. -/
theorem chain_preserves {P : Manager → Prop} (hdrop : ∀ m k, P m → P (m.dropKey S k))
    (h : Relation.ReflTransGen (Sheds S uses key) m m') (hm : P m) : P m' := by
  induction h with
  | refl => exact hm
  | tail _ hstep ih =>
      obtain ⟨k, -, -, rfl⟩ := hstep
      exact hdrop _ k ih

theorem chain_costs (h : Relation.ReflTransGen (Sheds S uses key) m m') : m'.costs = m.costs :=
  chain_preserves (P := fun m' ↦ m'.costs = m.costs) (fun _ _ h ↦ h) h rfl

/-- The loop over the cap removes by forced removals. -/
theorem evictLruLoop_chain (n : Nat) (h : Recency uses m.models.keys) :
    Relation.ReflTransGen (Sheds S uses key) m (Manager.evictLruLoop S n m).1 := by
  induction n generalizing m with
  | zero => exact .refl
  | succ n ih =>
      rw [Manager.evictLruLoop]
      split
      · exact .refl
      · next hlen =>
          split
          · exact .refl
          · next k hk =>
              refine .head ⟨k, leastRecent_of_lru h hk, .inl (Nat.not_lt.mp hlen), rfl⟩ (ih ?_)
              rw [keys_dropKey]
              exact h.sublist List.erase_sublist

/-- It ends below the cap. -/
theorem length_evictLruLoop (hcap : 0 < S.maxLoadedModels) (n : Nat)
    (hn : m.models.keys.length < n) :
    (Manager.evictLruLoop S n m).1.models.keys.length < S.maxLoadedModels := by
  induction n generalizing m with
  | zero => exact absurd hn (Nat.not_lt_zero _)
  | succ n ih =>
      rw [Manager.evictLruLoop]
      split
      · assumption
      · split
        · next hlru =>
            rw [Manager.lru, List.getLast?_eq_none_iff] at hlru
            simpa [hlru] using hcap
        · next k hk =>
            apply ih
            have := length_dropKey (S := S) (Manager.mem_of_lru hk)
            omega

theorem evictLruIfNeeded_chain (h : Recency uses m.models.keys) :
    Relation.ReflTransGen (Sheds S uses key) m (m.evictLruIfNeeded S).1 := evictLruLoop_chain _ h

theorem length_evictLruIfNeeded (hcap : 0 < S.maxLoadedModels) :
    (m.evictLruIfNeeded S).1.models.keys.length < S.maxLoadedModels :=
  length_evictLruLoop hcap _ (Nat.lt_succ_self _)

/-- The loop over the memory budget removes by forced removals. -/
theorem makeRoomLoop_chain {cost b : Nat} (n : Nat) (hb : S.budgetMb = some b)
    (hcost : m.costs key = some cost) (hkey : key ∉ m.models) (h : Recency uses m.models.keys) :
    Relation.ReflTransGen (Sheds S uses key) m (Manager.makeRoomLoop S key cost b n m) := by
  induction n generalizing m with
  | zero => exact .refl
  | succ n ih =>
      rw [Manager.makeRoomLoop]
      split
      · exact .refl
      · next old hold =>
          have hmem := Manager.mem_of_lru hold
          split
          · exact .refl
          · next hroom =>
              have hne : old ≠ key := fun heq ↦ hkey (heq ▸ hmem)
              rw [if_neg hne]
              refine .head ⟨old, leastRecent_of_lru h hold, .inr ⟨b, hb, ?_⟩, rfl⟩ (ih ?_ ?_ ?_)
              · rw [hcost]
                exact Nat.not_le.mp hroom
              · exact hcost
              · simp [Manager.dropKey, hkey]
              · rw [keys_dropKey]
                exact h.sublist List.erase_sublist

/-- It ends with room for a key that fits the budget alone. -/
theorem used_makeRoomLoop {cost b : Nat} (n : Nat) (hn : m.models.keys.length ≤ n)
    (hle : cost ≤ b) (hkey : key ∉ m.models) :
    (Manager.makeRoomLoop S key cost b n m).used key + cost ≤ b := by
  have hempty : ∀ m : Manager, m.models.keys = [] → m.used key + cost ≤ b := by
    intro m hm
    simpa [Manager.used, hm] using hle
  induction n generalizing m with
  | zero => exact hempty m (List.eq_nil_of_length_eq_zero (Nat.le_zero.mp hn))
  | succ n ih =>
      rw [Manager.makeRoomLoop]
      split
      · next hlru =>
          rw [Manager.lru, List.getLast?_eq_none_iff] at hlru
          exact hempty m hlru
      · next old hold =>
          have hmem := Manager.mem_of_lru hold
          split
          · assumption
          · have hne : old ≠ key := fun heq ↦ hkey (heq ▸ hmem)
            rw [if_neg hne]
            refine ih ?_ ?_
            · have := length_dropKey (S := S) hmem
              omega
            · simp [Manager.dropKey, hkey]

/-- Room has been made for `key`. -/
structure Room (S : Settings) (uses : List String) (key : String) (m r : Manager) : Prop where
  chain : Relation.ReflTransGen (Sheds S uses key) m r
  fits : Fits S key r

/-- The cap and the budget are made room for in turn. -/
theorem room_of_budget {cost b : Nat} (hcap : 0 < S.maxLoadedModels) (hb : S.budgetMb = some b)
    (hle : cost ≤ b) (hcost : m.costs key = some cost) (hkey : key ∉ m.models)
    (h : Recency uses m.models.keys) :
    Room S uses key m (Manager.makeRoomLoop S key cost b
      (m.evictLruIfNeeded S).1.models.keys.length (m.evictLruIfNeeded S).1) := by
  have hchain : Relation.ReflTransGen (Sheds S uses key) m (m.evictLruIfNeeded S).1 :=
    evictLruIfNeeded_chain h
  have hcost' := (congrFun (chain_costs hchain) key).trans hcost
  have hkey' : key ∉ (m.evictLruIfNeeded S).1.models :=
    chain_preserves (P := fun m ↦ key ∉ m.models)
      (fun _ _ h ↦ by simp [Manager.dropKey, h]) hchain hkey
  have hord : Recency uses (m.evictLruIfNeeded S).1.models.keys :=
    chain_preserves (P := fun m ↦ Recency uses m.models.keys)
      (fun m k h ↦ by rw [keys_dropKey]; exact h.sublist List.erase_sublist) hchain h
  have hchain' := makeRoomLoop_chain (m.evictLruIfNeeded S).1.models.keys.length hb hcost' hkey' hord
  have hused := used_makeRoomLoop (S := S) _ (Nat.le_refl _) hle hkey'
  have hlen := length_evictLruIfNeeded (m := m) hcap
  generalize Manager.makeRoomLoop S key cost b (m.evictLruIfNeeded S).1.models.keys.length
    (m.evictLruIfNeeded S).1 = r at hchain' hused ⊢
  have hall := hchain.trans hchain'
  have habsent : key ∉ r.models := chain_preserves (P := fun m ↦ key ∉ m.models)
    (fun _ _ h ↦ by simp [Manager.dropKey, h]) hchain' hkey'
  refine ⟨hall, habsent, ?_, ?_⟩
  · refine chain_preserves (P := fun m ↦ m.models.keys.length < S.maxLoadedModels)
      ?_ hchain' hlen
    intro m k h
    rw [keys_dropKey]
    exact Nat.lt_of_le_of_lt List.length_erase_le h
  · intro b' hb'
    obtain rfl : b = b' := Option.some.inj (hb.symm.trans hb')
    rw [used_eq_total habsent] at hused
    rw [chain_costs hall, hcost]
    exact hused

/-- Without a budget only the cap is made room for. -/
theorem room_of_cap (hcap : 0 < S.maxLoadedModels) (hb : S.budgetMb = none)
    (hkey : key ∉ m.models) (h : Recency uses m.models.keys) :
    Room S uses key m (m.evictLruIfNeeded S).1 := by
  have hchain : Relation.ReflTransGen (Sheds S uses key) m (m.evictLruIfNeeded S).1 :=
    evictLruIfNeeded_chain h
  refine ⟨hchain, ?_, length_evictLruIfNeeded hcap, ?_⟩
  · exact chain_preserves (P := fun m ↦ key ∉ m.models)
      (fun _ _ h ↦ by simp [Manager.dropKey, h]) hchain hkey
  · intro b hb'
    rw [hb] at hb'
    cases hb'

/-- What `_make_room_for` does for a key that is not resident: it records a cost and makes
room, or raises and removes nothing. -/
theorem makeRoomFor_spec (costMb : Option Nat) (hcap : 0 < S.maxLoadedModels)
    (hkey : key ∉ m.models) (h : Recency uses m.models.keys) :
    ∃ c, (∀ k ∈ m.models, c k = m.costs k) ∧
      ((∃ e, m.makeRoomFor S key costMb = ({ m with costs := c }, some e)) ∨
        ((m.makeRoomFor S key costMb).2 = none ∧
          Room S uses key { m with costs := c } (m.makeRoomFor S key costMb).1)) := by
  have hcosts : ∀ cost : Nat, ∀ k ∈ m.models,
      Function.update m.costs key (some cost) k = m.costs k := by
    intro cost k hk
    refine Function.update_of_ne ?_ _ _
    rintro rfl
    exact hkey hk
  have hevict : ∀ m : Manager, (m.evictLruIfNeeded S).2 = true :=
    fun m ↦ Manager.evictLruIfNeeded_ok.mpr hcap
  cases hb : S.budgetMb with
  | none =>
      refine ⟨Function.update m.costs key (some 0), hcosts 0, .inr ?_⟩
      simp only [Manager.makeRoomFor, hb, if_neg hkey, hevict, if_true, true_and]
      exact room_of_cap hcap hb hkey h
  | some b =>
      cases costMb with
      | none =>
          refine ⟨m.costs, fun _ _ ↦ rfl, .inl ⟨.stat, ?_⟩⟩
          simp only [Manager.makeRoomFor, hb]
      | some cost =>
          refine ⟨Function.update m.costs key (some cost), hcosts cost, ?_⟩
          by_cases hlarge : b < cost
          · exact .inl ⟨.tooLarge cost b, by simp only [Manager.makeRoomFor, hb, if_pos hlarge]⟩
          · simp only [Manager.makeRoomFor, hb, if_neg hlarge, if_neg hkey, hevict, if_true]
            refine .inr ⟨trivial, ?_⟩
            exact room_of_budget hcap hb (Nat.not_lt.mp hlarge) (Function.update_self ..) hkey h

/-- How a load that is not forced begins. -/
theorem loadBegin_cases (f : Manager.Files) (name : String) (adapter : Option String)
    (hcap : 0 < S.maxLoadedModels) (h : Recency uses m.models.keys) :
    (∃ l, m.models.lookup (cacheKey name adapter) = some l ∧
        m.loadBegin S f false name adapter =
          ({ m with models := m.models.insert (cacheKey name adapter) l }, .hit l)) ∨
      ∃ c, (∀ k ∈ m.models, c k = m.costs k) ∧
        ((∃ e, m.loadBegin S f false name adapter = ({ m with costs := c }, .raised e)) ∨
          ((m.loadBegin S f false name adapter).2 = .build ∧
            Room S uses (cacheKey name adapter) { m with costs := c }
              (m.loadBegin S f false name adapter).1)) := by
  cases hl : m.models.lookup (cacheKey name adapter) with
  | some l => exact .inl ⟨l, rfl, by simp only [Manager.loadBegin, hl]⟩
  | none =>
      have hkey : cacheKey name adapter ∉ m.models := AList.lookup_eq_none.mp hl
      apply Or.inr
      simp only [Manager.loadBegin, hl]
      cases hconf : S.configs name with
      | none => exact ⟨m.costs, fun _ _ ↦ rfl, .inl ⟨_, rfl⟩⟩
      | some config =>
          dsimp only
          split_ifs
          · exact ⟨m.costs, fun _ _ ↦ rfl, .inl ⟨_, rfl⟩⟩
          · exact ⟨m.costs, fun _ _ ↦ rfl, .inl ⟨_, rfl⟩⟩
          · exact ⟨m.costs, fun _ _ ↦ rfl, .inl ⟨_, rfl⟩⟩
          · exact ⟨m.costs, fun _ _ ↦ rfl, .inl ⟨_, rfl⟩⟩
          · obtain ⟨c, hc, ⟨e, he⟩ | ⟨hnone, hroom⟩⟩ :=
              makeRoomFor_spec f.costMb hcap hkey h
            · exact ⟨c, hc, .inl ⟨e, by rw [he]; rfl⟩⟩
            · exact ⟨c, hc, .inr ⟨by rw [hnone]; rfl, hroom⟩⟩

/-- How a load that is not forced ends: there is still room. -/
theorem loadEnd_of_fits {name : String} {adapter : Option String}
    (h : Fits S (cacheKey name adapter) m) :
    m.loadEnd S false name adapter =
      ((m.construct (cacheKey name adapter) false).place name (cacheKey name adapter) m.fresh,
        .ok m.fresh) := by
  have hevict : (m.construct (cacheKey name adapter) false).evictLruIfNeeded S =
      (m.construct (cacheKey name adapter) false, true) := by
    rw [Manager.evictLruIfNeeded, Manager.evictLruLoop, if_pos]
    exact h.length
  have habsent : cacheKey name adapter ∉ (m.construct (cacheKey name adapter) false).models :=
    h.absent
  simp only [Manager.loadEnd]
  rw [if_neg habsent, hevict]
  rfl

/-! ## Steps -/

/-- What a step of the request `i` does. -/
inductive Effect (S : Settings) (uses : List String) (s : State) (i : ReqId) (s' : State) : Prop
  /-- It waits for `_load_lock`. -/
  | wait (hm : s'.mgr = s.mgr) (hl : s'.loadLock = s.loadLock)
      (hp : (s'.reqs i).pc = .acquiring)
  /-- It finds its key resident. -/
  | hit (l : Obj) (hk : s.mgr.models.lookup ((s'.reqs i).key S) = some l)
      (hm : s'.mgr.models = s.mgr.models.insert ((s'.reqs i).key S) l)
      (hc : s'.mgr.costs = s.mgr.costs) (hl : s'.loadLock = s.loadLock)
      (hp : served (s'.reqs i) = true)
  /-- It is an `evict`. -/
  | evict (hop : (s'.reqs i).op = .evict)
      (hm : s'.mgr = s.mgr.unloadModel S ((s'.reqs i).key S))
      (hx : ∀ j, j ≠ i → (s.reqs j).pc ≠ .building) (hp : ∃ b, (s'.reqs i).pc = .finished (.evicted b))
  /-- Its load raises. -/
  | raise (c : String → Option Nat) (hc : ∀ k ∈ s.mgr.models, c k = s.mgr.costs k)
      (hm : s'.mgr = { s.mgr with costs := c })
      (hx : ∀ j, j ≠ i → (s.reqs j).pc ≠ .building) (hp : ∃ e, (s'.reqs i).pc = .finished (.raised e))
  /-- It makes room and constructs. -/
  | build (c : String → Option Nat) (hc : ∀ k ∈ s.mgr.models, c k = s.mgr.costs k)
      (hroom : Room S uses ((s'.reqs i).key S) { s.mgr with costs := c } s'.mgr)
      (hx : ∀ j, j ≠ i → (s.reqs j).pc ≠ .building) (hl : s'.loadLock = some i)
      (hp : (s'.reqs i).pc = .building)
  /-- It inserts its model. -/
  | insert (l : Obj) (hf : Fits S ((s'.reqs i).key S) s.mgr)
      (hm : s'.mgr.models = s.mgr.models.insert ((s'.reqs i).key S) l)
      (hc : s'.mgr.costs = s.mgr.costs) (hx : ∀ j, j ≠ i → (s.reqs j).pc ≠ .building)
      (hp : served (s'.reqs i) = true)

/-- The bounds and the order in every state, and room for the model under construction. -/
structure Inv (S : Settings) (uses : List String) (s : State) : Prop where
  sound : Sound S uses s.mgr
  unforced : ∀ i, (s.reqs i).op.forced = false
  building : ∀ i, (s.reqs i).pc = .building →
    s.loadLock = some i ∧ Fits S ((s.reqs i).key S) s.mgr

theorem deliver_reqs : (∀ j, j ≠ i → (s.deliver S i l).reqs j = s.reqs j) ∧
    ((s.deliver S i l).reqs i).op = (s.reqs i).op ∧
    ((s.deliver S i l).reqs i).key S = (s.reqs i).key S ∧
    served ((s.deliver S i l).reqs i) = true := by
  rw [State.deliver]
  split
  · exact ⟨fun j hj ↦ State.setPc_reqs_of_ne hj, by simp [State.setPc],
      by simp [State.setPc, Req.key], by simp [State.setPc, served]⟩
  · exact ⟨fun j hj ↦ State.setPc_reqs_of_ne hj, by simp [State.setPc],
      by simp [State.setPc, Req.key], by simp [State.setPc, served]⟩

/-- The other requests stay where they are, and the request of the step is not forced. -/
structure Frame (s : State) (i : ReqId) (s' : State) : Prop where
  reqs : ∀ j, j ≠ i → s'.reqs j = s.reqs j
  op : (s'.reqs i).op.forced = false

/-- The request of the step ends, or begins to construct. -/
theorem Frame.setPc {t : State} {pc : ReqPc} (h : Frame s i t) : Frame s i (t.setPc i pc) :=
  ⟨fun j hj ↦ (State.setPc_reqs_of_ne hj).trans (h.reqs j hj), by simpa [State.setPc] using h.op⟩

theorem Frame.deliver {t : State} (h : Frame s i t) : Frame s i (t.deliver S i l) := by
  obtain ⟨hne, hop, -⟩ := deliver_reqs (S := S) (s := t) (i := i) (l := l)
  refine ⟨fun j hj ↦ (hne j hj).trans (h.reqs j hj), ?_⟩
  rw [hop]
  exact h.op

/-- The request finds its key resident, and leaves with the model. -/
theorem Frame.hit {t : State} (h : Frame s i t)
    (hk : s.mgr.models.lookup ((t.reqs i).key S) = some l)
    (hm : t.mgr.models = s.mgr.models.insert ((t.reqs i).key S) l) (hc : t.mgr.costs = s.mgr.costs)
    (hl : t.loadLock = s.loadLock) :
    Effect S uses s i (t.deliver S i l) ∧ Frame s i (t.deliver S i l) := by
  obtain ⟨hm', hc', -, hl'⟩ := State.deliver_mgr (S := S) (s := t) (i := i) (l := l)
  obtain ⟨-, -, hkey, hserved⟩ := deliver_reqs (S := S) (s := t) (i := i) (l := l)
  refine ⟨.hit l ?_ ?_ (hc'.trans hc) (hl'.trans hl) hserved, h.deliver⟩
  · rw [hkey]
    exact hk
  · rw [hkey]
    exact hm'.trans hm

theorem effect_call {q : Req} (hop : q.op.forced = false) :
    Effect S uses s i (s.call S i q) ∧ Frame s i (s.call S i q) := by
  let s₁ : State := { s with reqs := Function.update s.reqs i { q with pc := .acquiring } }
  have hself : s₁.reqs i = { q with pc := .acquiring } := Function.update_self ..
  have hkey : (s₁.reqs i).key S = q.key S := by
    rw [hself]
    rfl
  have hframe : ∀ mgr, Frame s i { s₁ with mgr := mgr } := by
    intro mgr
    refine ⟨fun j hj ↦ Function.update_of_ne hj _ _, ?_⟩
    show (s₁.reqs i).op.forced = false
    rw [hself]
    exact hop
  have hhit : ∀ l, s.mgr.models.lookup (q.key S) = some l →
      Effect S uses s i
          (State.deliver S { s₁ with mgr.models := s.mgr.models.insert (q.key S) l } i l) ∧
        Frame s i (State.deliver S { s₁ with mgr.models := s.mgr.models.insert (q.key S) l } i l) := by
    intro l hl
    refine (hframe _).hit ?_ ?_ rfl rfl
    · show s.mgr.models.lookup ((s₁.reqs i).key S) = some l
      rw [hkey]
      exact hl
    · show _ = s.mgr.models.insert ((s₁.reqs i).key S) l
      rw [hkey]
  simp only [State.call]
  split
  · next hl => exact hhit _ hl
  · next hl => exact hhit _ hl
  · refine ⟨.wait rfl rfl ?_, hframe s.mgr⟩
    show (s₁.reqs i).pc = .acquiring
    rw [hself]

theorem effect_locked (h : Inv S uses s) (hcap : 0 < S.maxLoadedModels) (hl : s.loadLock = none)
    (f : Manager.Files) :
    Effect S uses s i (s.locked S i f) ∧ Frame s i (s.locked S i f) := by
  -- the lock is free, so nothing is being constructed
  have hx : ∀ j, j ≠ i → (s.reqs j).pc ≠ .building := by
    intro j _ hj
    rw [(h.building j hj).1] at hl
    cases hl
  have hop := h.unforced i
  have hframe : ∀ mgr lock, Frame s i { s with mgr := mgr, loadLock := lock } :=
    fun _ _ ↦ ⟨fun _ _ ↦ rfl, hop⟩
  simp only [State.locked]
  split
  · next hev =>
      refine ⟨.evict ?_ ?_ hx ⟨_, State.setPc_pc⟩, (hframe _ _).setPc⟩
      · simpa [State.setPc] using hev
      · simp [State.setPc, Req.key]
  · rw [hop]
    rcases loadBegin_cases f (S.resolveServingName (s.reqs i).modelName)
        (s.reqs i).adapterPath hcap h.sound.order with
      ⟨l, hlook, heq⟩ | ⟨c, hc, ⟨e, heq⟩ | ⟨hbuild, hroom⟩⟩
    · rw [heq]
      exact (hframe _ _).hit hlook rfl rfl rfl
    · rw [heq]
      exact ⟨.raise c hc rfl hx ⟨e, State.setPc_pc⟩, (hframe _ _).setPc⟩
    · rw [hbuild]
      refine ⟨.build c hc ?_ hx rfl State.setPc_pc, (hframe _ _).setPc⟩
      have hkey : ((s.setPc i .building).reqs i).key S = (s.reqs i).key S := by
        simp [State.setPc, Req.key]
      exact hkey ▸ hroom

theorem effect_built (h : Inv S uses s) (hp : (s.reqs i).pc = .building) (ok : Bool) :
    Effect S uses s i (s.built S i ok) ∧ Frame s i (s.built S i ok) := by
  obtain ⟨hlock, hfits⟩ := h.building i hp
  have hx : ∀ j, j ≠ i → (s.reqs j).pc ≠ .building := by
    intro j hj hpj
    have heq := (h.building j hpj).1
    rw [hlock] at heq
    exact hj (Option.some.inj heq).symm
  have hop := h.unforced i
  have hframe : ∀ mgr lock, Frame s i { s with mgr := mgr, loadLock := lock } :=
    fun _ _ ↦ ⟨fun _ _ ↦ rfl, hop⟩
  simp only [State.built]
  rw [hop, loadEnd_of_fits hfits]
  cases ok with
  | false =>
      rw [if_neg (by simp)]
      exact ⟨.raise s.mgr.costs (fun _ _ ↦ rfl) rfl hx ⟨_, State.setPc_pc⟩, (hframe _ _).setPc⟩
  | true =>
      rw [if_pos rfl]
      let t : State :=
        { s with
          mgr := (s.mgr.construct ((s.reqs i).key S) false).place
            (S.resolveServingName (s.reqs i).modelName) ((s.reqs i).key S) s.mgr.fresh
          loadLock := none }
      obtain ⟨hm, hc, -⟩ := State.deliver_mgr (S := S) (s := t) (i := i) (l := s.mgr.fresh)
      obtain ⟨-, -, hkey, hserved⟩ := deliver_reqs (S := S) (s := t) (i := i) (l := s.mgr.fresh)
      show Effect S uses s i (t.deliver S i s.mgr.fresh) ∧ Frame s i (t.deliver S i s.mgr.fresh)
      refine ⟨.insert s.mgr.fresh ?_ ?_ hc hx hserved, (hframe _ _).deliver⟩
      · rw [hkey]
        exact hfits
      · rw [hkey]
        exact hm

theorem effect_of_step (h : Inv S uses s) (hcap : 0 < S.maxLoadedModels)
    (hu : Unforced (s, uses) a) (hs : step S s a = some s') :
    Effect S uses s (Act.req a) s' ∧ Frame s (Act.req a) s' := by
  cases a with
  | call j op modelName adapterPath =>
      simp only [step] at hs
      split at hs <;> cases hs
      exact effect_call hu
  | acquire j f =>
      simp only [step] at hs
      split at hs
      · next hfree =>
          cases hs
          exact effect_locked h hcap hfree.2 f
      · cases hs
  | construct j ok =>
      simp only [step] at hs
      split at hs
      · next hp =>
          cases hs
          exact effect_built h hp ok
      · cases hs

theorem recordOf_of_pc {q : Req} (h : ∀ o, q.pc = .finished o → served q = false) :
    recordOf S q uses = uses := by
  rw [recordOf, if_neg]
  intro hserved
  cases hpc : q.pc with
  | finished o => simp [h o hpc] at hserved
  | absent | acquiring | building => simp [served, hpc] at hserved

namespace Inv

protected theorem init : Inv S [] State.init where
  sound := ⟨Nat.zero_le _, fun _ _ ↦ Nat.zero_le _, .nil⟩
  unforced _ := rfl
  building i hi := by simp [State.init] at hi

theorem step (h : Inv S uses s) (he : Effect S uses s i s') (hf : Frame s i s') :
    Inv S (recordOf S (s'.reqs i) uses) s' := by
  have hops : ∀ j, (s'.reqs j).op.forced = false := by
    intro j
    by_cases hj : j = i
    · exact hj ▸ hf.op
    · rw [hf.reqs j hj]
      exact h.unforced j
  -- the other requests that construct, if any, still have their room
  have hother : ∀ j, j ≠ i → (s'.reqs j).pc = .building → (s.reqs j).pc = .building ∧
      (s'.reqs j).key S = (s.reqs j).key S := by
    intro j hj hpj
    rw [hf.reqs j hj] at hpj ⊢
    exact ⟨hpj, rfl⟩
  have hnone : ∀ {uses'}, Sound S uses' s'.mgr → (s'.reqs i).pc ≠ .building →
      (∀ j, j ≠ i → (s.reqs j).pc ≠ .building) → Inv S uses' s' := by
    intro uses' hsound hpi hx
    refine ⟨hsound, hops, ?_⟩
    intro j hpj
    by_cases hj : j = i
    · exact absurd (hj ▸ hpj) hpi
    · exact absurd (hother j hj hpj).1 (hx j hj)
  cases he with
  | wait hm hl hp =>
      rw [recordOf_of_pc (by simp [hp])]
      refine ⟨hm ▸ h.sound, hops, ?_⟩
      intro j hpj
      by_cases hj : j = i
      · rw [hj, hp] at hpj
        cases hpj
      · obtain ⟨hpj, hkey⟩ := hother j hj hpj
        obtain ⟨hlock, hfits⟩ := h.building j hpj
        rw [hl, hm, hkey]
        exact ⟨hlock, hfits⟩
  | hit l hk hm hc hl hp =>
      rw [recordOf, if_pos hp]
      refine ⟨(h.sound.touch hk).congr hm hc, hops, ?_⟩
      intro j hpj
      by_cases hj : j = i
      · rw [hj] at hpj
        simp [served, hpj] at hp
      · obtain ⟨hpj, hkey⟩ := hother j hj hpj
        obtain ⟨hlock, hfits⟩ := h.building j hpj
        rw [hl, hkey]
        exact ⟨hlock, (hfits.touch hk).congr hm hc⟩
  | evict hop hm hx hp =>
      obtain ⟨b, hp⟩ := hp
      rw [recordOf_of_pc (by simp [hp, served])]
      refine hnone ?_ (by simp [hp]) hx
      rw [hm, Manager.unloadModel]
      split
      · exact h.sound.dropKey
      · exact h.sound
  | raise c hc hm hx hp =>
      obtain ⟨e, hp⟩ := hp
      rw [recordOf_of_pc (by simp [hp, served])]
      exact hnone (hm ▸ h.sound.costs hc) (by simp [hp]) hx
  | build c hc hroom hx hl hp =>
      rw [recordOf_of_pc (by simp [hp])]
      refine ⟨chain_preserves (fun _ _ h ↦ h.dropKey) hroom.chain (h.sound.costs hc), hops,
        ?_⟩
      intro j hpj
      by_cases hj : j = i
      · subst hj
        exact ⟨hl, hroom.fits⟩
      · exact absurd (hother j hj hpj).1 (hx j hj)
  | insert l hfits hm hc hx hp =>
      rw [recordOf, if_pos hp]
      refine hnone ((h.sound.insert hfits).congr hm hc) ?_ hx
      intro hb
      simp [served, hb] at hp

end Inv

/-- What a load removes in one step. -/
theorem Effect.shedsOnly (he : Effect S uses s i s') (hop : (s'.reqs i).op ≠ .evict) :
    ShedsOnly S uses ((s'.reqs i).key S) s.mgr s'.mgr := by
  cases he with
  | wait hm hl hp => exact ⟨s.mgr, s.mgr, rfl, by rw [hm], .refl, .inl (by rw [hm])⟩
  | hit l hk hm hc hl hp => exact ⟨s.mgr, s.mgr, rfl, hc.symm, .refl, .inr ⟨l, hm⟩⟩
  | evict hev => exact absurd hev hop
  | raise c hc hm hx hp =>
      exact ⟨s'.mgr, s'.mgr, by rw [hm], rfl, .refl, .inl rfl⟩
  | build c hc hroom hx hl hp =>
      exact ⟨{ s.mgr with costs := c }, s'.mgr, rfl, (chain_costs hroom.chain).symm, hroom.chain,
        .inl rfl⟩
  | insert l hf hm hc hx hp => exact ⟨s.mgr, s.mgr, rfl, hc.symm, .refl, .inr ⟨l, hm⟩⟩

/-- A load that raises removes nothing. -/
theorem Effect.models_of_raised {e : Manager.LoadError} (he : Effect S uses s i s')
    (hp : (s'.reqs i).pc = .finished (.raised e)) : s'.mgr.models = s.mgr.models := by
  cases he with
  | raise c hc hm hx hp' => rw [hm]
  | wait hm hl hp' => rw [hm]
  | hit l hk hm hc hl hserved | insert l hf hm hc hx hserved => simp [served, hp] at hserved
  | evict hop hm hx hp' =>
      obtain ⟨b, hp'⟩ := hp'
      rw [hp] at hp'
      cases hp'
  | build c hc hroom hx hl hp' =>
      rw [hp] at hp'
      cases hp'

/-- **The model cache.**  After any run of loads that are not forced and of evictions, under a
cap of at least one: the number of resident models is at most the cap, their recorded costs are
within the budget, and the order of the dictionary is the order of last use.  Whatever step
comes next, a load removes only keys that are the least recently used ones when they go and
have to go, and one that raises `ModelTooLargeForMemory` removes nothing. -/
theorem cache_bounded (S : Settings) (hcap : 1 ≤ S.maxLoadedModels) (x : State × List String)
    (h : (recorded S).Reach Unforced x) :
    x.1.mgr.models.keys.length ≤ S.maxLoadedModels ∧
      (∀ b, S.budgetMb = some b → total x.1.mgr ≤ b) ∧
      Recency x.2 x.1.mgr.models.keys ∧
      ∀ a y, Unforced x a → (recorded S).next x a = some y →
        ((y.1.reqs (Act.req a)).op ≠ .evict →
          ShedsOnly S x.2 ((y.1.reqs (Act.req a)).key S) x.1.mgr y.1.mgr) ∧
        ∀ cost budget,
          (y.1.reqs (Act.req a)).pc = .finished (.raised (.tooLarge cost budget)) →
          y.1.mgr.models = x.1.mgr.models := by
  have hinv : Inv S x.2 x.1 := by
    apply h.invariant (P := fun x ↦ Inv S x.2 x.1) Inv.init
    intro x a y hi hu hn
    obtain ⟨s', hs, rfl⟩ := Option.map_eq_some_iff.mp hn
    obtain ⟨he, hf⟩ := effect_of_step hi hcap hu hs
    have hrec : record S x.1 a x.2 = recordOf S (s'.reqs (Act.req a)) x.2 := by
      have hs : step S x.1 a = some s' := hs
      rw [record, hs]
    rw [hrec]
    exact hi.step he hf
  refine ⟨hinv.sound.length, hinv.sound.budget, hinv.sound.order, ?_⟩
  intro a y hu hn
  obtain ⟨s', hs, rfl⟩ := Option.map_eq_some_iff.mp hn
  obtain ⟨he, -⟩ := effect_of_step hinv hcap hu hs
  exact ⟨he.shedsOnly, fun cost budget hp ↦ he.models_of_raised hp⟩

/-- Three models of a catalog, of which two fit the cap. -/
def threeModels : Settings :=
  { maxLoadedModels := 2
    budgetMb := some 10
    configs := fun name ↦ if name ∈ ["a", "b", "c"] then some ⟨false⟩ else none
    byHfId := fun _ ↦ none }

/-- A model file of the given cost. -/
def onDisk (cost : Nat) : Manager.Files := ⟨true, true, true, true, some cost⟩

/-- Two loads, a hit of the first model while a third one waits, and the third load. -/
def threeLoads : List Act :=
  [.call 0 .ensureModelLoaded "a" none, .acquire 0 (onDisk 4), .construct 0 true,
    .call 1 (.loadModel false) "b" none, .acquire 1 (onDisk 4), .construct 1 true,
    .call 2 .ensureModelLoaded "c" none, .call 3 .ensureModelLoaded "a" none,
    .acquire 2 (onDisk 6), .construct 2 true]

instance (x : State × List String) (a : Act) : Decidable (Unforced x a) :=
  match a with
  | .call _ op _ _ => inferInstanceAs (Decidable (op.forced = false))
  | .acquire _ _ | .construct _ _ => .isTrue trivial

/-- The least recently used model goes, and the bounds are met exactly. -/
theorem cache_bounded_threeLoads : ∃ x, (recorded threeModels).Reach Unforced x ∧
    x.1.mgr.models.keys = ["c", "a"] ∧ x.2 = ["c", "a", "b", "a"] ∧ total x.1.mgr = 10 ∧
    x.1.mgr.models.keys.length ≤ threeModels.maxLoadedModels ∧
    Recency x.2 x.1.mgr.models.keys := by
  obtain ⟨x, hx, hend⟩ := System.Reach.of_exec (S := recorded threeModels) (g := Unforced)
    (l := threeLoads) (f := fun x ↦ (x.1.mgr.models.keys, x.2, total x.1.mgr))
    (b := (["c", "a"], ["c", "a", "b", "a"], 10)) (by decide)
  simp only [Prod.mk.injEq] at hend
  obtain ⟨hlen, -, horder, -⟩ := cache_bounded threeModels (by decide) x hx
  exact ⟨x, hx, hend.1, hend.2.1, hend.2.2, hlen, horder⟩

end Adapta.Models.Eviction
