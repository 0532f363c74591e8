import Adapta.Models.Loading

/-!
# One lock per model instance

A `Llama` object is guarded by the lock its handle carries, so two handles on one object
must carry one lock.  Models and locks live in two dictionaries, under keys that are
dropped and created again while requests still hold old objects; what ties them together
is `Bound`: as long as an object is in the cache, the lock under its key is the one its
handles carry.  It survives because a lock is never dropped without its model, and
because an object that has left the cache never returns to it.

The second result counts constructions.  The check of `ensure_model_loaded` is made
outside `_load_lock`, but `load_model` makes it again inside: between two removals of a
key from the cache, loads that are not forced construct at most one object for it
(`builds`).
-/

namespace Adapta.Models

open Lib

variable {S : Settings} {m : Manager} {P : Manager → Prop} {key : String}

/-! ## Evictions -/

theorem Manager.mem_of_lru (h : m.lru = some key) : key ∈ m.models :=
  AList.mem_keys.mpr (List.mem_of_getLast? h)

/-- A property that survives the removal of a resident key survives `_evict_lru_if_needed`. -/
theorem Manager.evictLruLoop_preserves
    (hdrop : ∀ m k, k ∈ m.models → P m → P (m.dropKey S k)) :
    ∀ (n : Nat) (m : Manager), P m → P (evictLruLoop S n m).1 := by
  intro n
  induction n with
  | zero => exact fun m h ↦ h
  | succ n ih =>
      intro m h
      rw [evictLruLoop]
      split
      · exact h
      · split
        · exact h
        · next k hk => exact ih _ (hdrop m k (mem_of_lru hk) h)

/-- The loop runs out of entries only under a cap of zero. -/
theorem Manager.evictLruLoop_ok (hcap : 0 < S.maxLoadedModels) :
    ∀ (n : Nat) (m : Manager), (evictLruLoop S n m).2 = true := by
  intro n
  induction n with
  | zero => exact fun m ↦ rfl
  | succ n ih =>
      intro m
      rw [evictLruLoop]
      split
      · rfl
      · next hlen =>
          split
          · next hlru =>
              -- no last key means no keys, and then the length test has passed
              rw [lru, List.getLast?_eq_none_iff] at hlru
              rw [hlru] at hlen
              exact absurd hcap hlen
          · exact ih _

/-- Under a cap of zero it does run out of entries. -/
theorem Manager.evictLruLoop_fails (hcap : S.maxLoadedModels = 0) :
    ∀ (n : Nat) (m : Manager), m.models.keys.length < n → (evictLruLoop S n m).2 = false := by
  intro n
  induction n with
  | zero => exact fun m h ↦ absurd h (Nat.not_lt_zero _)
  | succ n ih =>
      intro m h
      rw [evictLruLoop, if_neg (by simp [hcap])]
      split
      · rfl
      · next k hk =>
          have hmem : k ∈ m.models.keys := AList.mem_keys.mp (mem_of_lru hk)
          have hlen := List.length_erase_of_mem hmem
          have hpos := List.length_pos_of_mem hmem
          apply ih _
          rw [dropKey, AList.keys_erase, hlen]
          omega

theorem Manager.evictLruIfNeeded_ok : (m.evictLruIfNeeded S).2 = true ↔ 0 < S.maxLoadedModels := by
  constructor
  · intro h
    apply Nat.pos_of_ne_zero
    intro hcap
    rw [evictLruIfNeeded, evictLruLoop_fails hcap _ _ (Nat.lt_succ_self _)] at h
    cases h
  · exact fun hcap ↦ evictLruLoop_ok hcap _ _

/-- The memory loop, likewise; it may also pop the key that is being loaded. -/
theorem Manager.makeRoomLoop_preserves {cost budget : Nat}
    (hdrop : ∀ m k, k ∈ m.models → P m → P (m.dropKey S k))
    (hpop : ∀ m, key ∈ m.models → P m → P (m.popReplaced key)) :
    ∀ (n : Nat) (m : Manager), P m → P (makeRoomLoop S key cost budget n m) := by
  intro n
  induction n with
  | zero => exact fun m h ↦ h
  | succ n ih =>
      intro m h
      rw [makeRoomLoop]
      split
      · exact h
      · next old hold =>
          split
          · exact h
          · split
            · next heq => exact ih _ (hpop m (heq ▸ mem_of_lru hold) h)
            · exact ih _ (hdrop m old (mem_of_lru hold) h)

/-- `_make_room_for`: evictions, after a cost has been recorded. -/
theorem Manager.makeRoomFor_preserves {costMb : Option Nat}
    (hcost : ∀ m c, P m → P { m with costs := c })
    (hdrop : ∀ m k, k ∈ m.models → P m → P (m.dropKey S k))
    (hpop : ∀ m, key ∈ m.models → P m → P (m.popReplaced key)) (h : P m) :
    P (m.makeRoomFor S key costMb).1 := by
  have hevict : ∀ {m}, P m → P (m.evictLruIfNeeded S).1 :=
    fun h ↦ evictLruLoop_preserves hdrop _ _ h
  have hloop : ∀ {cost budget n m}, P m → P (makeRoomLoop S key cost budget n m) :=
    fun h ↦ makeRoomLoop_preserves hdrop hpop _ _ h
  simp only [makeRoomFor]
  split
  · split
    · exact hcost _ _ h
    · exact hevict (hcost _ _ h)
  · exact h
  · split_ifs
    · exact hcost _ _ h
    · exact hloop (hcost _ _ h)
    · exact hloop (hevict (hcost _ _ h))
    · exact hevict (hcost _ _ h)

/-- Room is found for a key that is not resident only under a positive cap. -/
theorem Manager.cap_pos_of_makeRoomFor {costMb : Option Nat} (hkey : key ∉ m.models)
    (h : (m.makeRoomFor S key costMb).2 = none) : 0 < S.maxLoadedModels := by
  simp only [makeRoomFor] at h
  split at h
  · rw [if_neg hkey] at h
    split_ifs at h with hr
    exact evictLruIfNeeded_ok.mp hr
  · cases h
  · rw [if_neg hkey] at h
    split_ifs at h with _ hr
    exact evictLruIfNeeded_ok.mp hr

/-- The first half of a load that misses the cache. -/
theorem Manager.loadBegin_preserves {f : Files} {force : Bool} {name : String}
    {adapter : Option String} (hcost : ∀ m c, P m → P { m with costs := c })
    (hdrop : ∀ m k, k ∈ m.models → P m → P (m.dropKey S k))
    (hpop : ∀ m k, k ∈ m.models → P m → P (m.popReplaced k))
    (hhit : ∀ m k l, m.models.lookup k = some l → P m →
      P { m with models := m.models.insert k l }) (h : P m) :
    P (m.loadBegin S f force name adapter).1 := by
  simp only [loadBegin]
  split
  · next hl => exact hhit _ _ _ hl h
  · split
    · exact h
    · split_ifs
      · exact h
      · exact h
      · exact h
      · exact h
      · exact makeRoomFor_preserves hcost hdrop (fun m ↦ hpop m _) h

/-- A load reaches the constructor of a key that is not resident only under a positive
cap, and the key is still not resident then. -/
theorem Manager.loadBegin_build {f : Files} {name : String} {adapter : Option String}
    (h : (m.loadBegin S f false name adapter).2 = .build) :
    cacheKey name adapter ∉ (m.loadBegin S f false name adapter).1.models ∧
      0 < S.maxLoadedModels := by
  have hkey : cacheKey name adapter ∉ m.models := by
    rw [← AList.lookup_eq_none, Option.eq_none_iff_forall_ne_some]
    intro l hl
    simp [loadBegin, hl] at h
  constructor
  · refine loadBegin_preserves (P := fun m ↦ cacheKey name adapter ∉ m.models) (fun _ _ h ↦ h)
      ?_ ?_ ?_ hkey
    · intro m k _ h
      simp [dropKey, h]
    · intro m k _ h
      simp [popReplaced, h]
    · intro m k l hl h
      have hk : k ∈ m.models := AList.lookup_isSome.mp (by simp [hl])
      rw [AList.mem_insert, not_or]
      exact ⟨fun he ↦ h (he ▸ hk), h⟩
  · have hnone : m.models.lookup (cacheKey name adapter) = none := AList.lookup_eq_none.mpr hkey
    simp only [loadBegin, hnone] at h
    split at h
    · cases h
    · split_ifs at h
      have hroom : (m.makeRoomFor S (cacheKey name adapter) f.costMb).2 = none := by
        cases hr : (m.makeRoomFor S (cacheKey name adapter) f.costMb).2 with
        | none => rfl
        | some e => simp [hr] at h
      exact cap_pos_of_makeRoomFor hkey hroom

/-- A load that hits returns the object under the key. -/
theorem Manager.lookup_of_hit {f : Files} {force : Bool} {name : String} {adapter : Option String}
    {l : Obj} (h : (m.loadBegin S f force name adapter).2 = .hit l) :
    (m.loadBegin S f force name adapter).1.models.lookup (cacheKey name adapter) = some l := by
  simp only [loadBegin] at h ⊢
  split at h
  · cases h
    exact AList.lookup_insert _
  · split at h
    · cases h
    · split_ifs at h
      cases hr : (m.makeRoomFor S (cacheKey name adapter) f.costMb).2 <;> simp [hr] at h

/-- The second half of a load evicts down to the cap and stores the new object, unless
nothing can be evicted. -/
theorem Manager.loadEnd_cases (S : Settings) (m : Manager) (force : Bool) (name : String)
    (adapter : Option String) :
    ∃ m', (∀ P : Manager → Prop, (∀ m k, k ∈ m.models → P m → P (m.dropKey S k)) →
        P (m.construct (cacheKey name adapter) force) → P m') ∧
      (m.loadEnd S force name adapter =
          (m'.place name (cacheKey name adapter) m.fresh, .ok m.fresh) ∨
        (S.maxLoadedModels = 0 ∧ cacheKey name adapter ∉ m.models ∧
          m.loadEnd S force name adapter = (m', .error .nothingToEvict))) := by
  by_cases hkey : cacheKey name adapter ∈ m.models
  · refine ⟨m.construct (cacheKey name adapter) force, fun P _ h ↦ h, .inl ?_⟩
    simp [loadEnd, construct, hkey]
  · let m₁ := m.construct (cacheKey name adapter) force
    refine ⟨(m₁.evictLruIfNeeded S).1, fun P hdrop h ↦ evictLruLoop_preserves hdrop _ _ h, ?_⟩
    have hif : (if cacheKey name adapter ∈ m₁.models then (m₁, true) else m₁.evictLruIfNeeded S) =
        m₁.evictLruIfNeeded S := if_neg hkey
    simp only [loadEnd]
    rw [hif]
    by_cases hr : (m₁.evictLruIfNeeded S).2 = true
    · rw [if_pos hr]
      exact .inl rfl
    · rw [if_neg hr]
      refine .inr ⟨?_, hkey, rfl⟩
      rw [evictLruIfNeeded_ok] at hr
      exact Nat.eq_zero_of_not_pos hr

/-- A load that constructs returns the object it has put under the key. -/
theorem Manager.lookup_of_loadEnd {force : Bool} {name : String} {adapter : Option String}
    {l : Obj} (h : (m.loadEnd S force name adapter).2 = .ok l) :
    (m.loadEnd S force name adapter).1.models.lookup (cacheKey name adapter) = some l := by
  obtain ⟨m', -, he | ⟨-, -, he⟩⟩ := loadEnd_cases S m force name adapter
  · rw [he] at h ⊢
    cases h
    exact AList.lookup_insert _
  · rw [he] at h
    cases h

@[simp] theorem Manager.getInferenceLock_models :
    (m.getInferenceLock key).1.models = m.models := by
  rw [getInferenceLock]
  split <;> rfl

/-! ## Locks and objects -/

/-- The tie between the two dictionaries and the handles that were given out. -/
structure Bound (hs : List Handle) (m : Manager) : Prop where
  /-- Identities are drawn from the counter. -/
  fresh : ∀ k l, m.models.lookup k = some l → l < m.fresh
  fresh_handle : ∀ h ∈ hs, h.llama < m.fresh
  /-- An object is resident under one key. -/
  key_unique : ∀ k k' l, m.models.lookup k = some l → m.models.lookup k' = some l → k = k'
  /-- The lock under the key of a resident object is the one its handles carry. -/
  lock : ∀ h ∈ hs, ∀ k, m.models.lookup k = some h.llama → m.inferLocks k = some h.lock
  /-- Handles on one object carry one lock. -/
  agree : ∀ h ∈ hs, ∀ h' ∈ hs, h.llama = h'.llama → h.lock = h'.lock

namespace Bound

variable {hs : List Handle} {m' : Manager} {l : Obj}

/-- Models may leave the cache, as long as those that stay keep their locks. -/
theorem of_subset (h : Bound hs m) (hf : m'.fresh = m.fresh)
    (hsub : ∀ k l, m'.models.lookup k = some l →
      m.models.lookup k = some l ∧ m'.inferLocks k = m.inferLocks k) : Bound hs m' where
  fresh k l hl := hf ▸ h.fresh k l (hsub k l hl).1
  fresh_handle x hx := hf ▸ h.fresh_handle x hx
  key_unique k k' l hl hl' := h.key_unique k k' l (hsub k l hl).1 (hsub k' l hl').1
  lock x hx k hl := by
    rw [(hsub k _ hl).2]
    exact h.lock x hx k (hsub k _ hl).1
  agree := h.agree

theorem ne_of_lookup_erase {k : String} (hl : (m.models.erase key).lookup k = some l) :
    k ≠ key := by
  rintro rfl
  rw [AList.lookup_erase] at hl
  cases hl

theorem dropKey (h : Bound hs m) : Bound hs (m.dropKey S key) := by
  refine h.of_subset rfl ?_
  intro k l hl
  have hne := ne_of_lookup_erase hl
  constructor
  · rwa [Manager.dropKey, AList.lookup_erase_ne hne] at hl
  · exact Function.update_of_ne hne _ _

theorem popReplaced (h : Bound hs m) : Bound hs (m.popReplaced key) := by
  refine h.of_subset rfl fun k l hl ↦ ⟨?_, rfl⟩
  rwa [Manager.popReplaced, AList.lookup_erase_ne (ne_of_lookup_erase hl)] at hl

theorem costs (h : Bound hs m) (c : String → Option Nat) : Bound hs { m with costs := c } :=
  h.of_subset rfl fun _ _ hl ↦ ⟨hl, rfl⟩

theorem lookup_touch {k : String} (hl : m.models.lookup key = some l) :
    (m.models.insert key l).lookup k = m.models.lookup k := by
  by_cases hk : k = key
  · subst hk
    rw [AList.lookup_insert, hl]
  · rw [AList.lookup_insert_ne hk]

theorem touch (h : Bound hs m) (hl : m.models.lookup key = some l) :
    Bound hs { m with models := m.models.insert key l } :=
  h.of_subset rfl fun k l' hl' ↦ ⟨by rwa [lookup_touch hl] at hl', rfl⟩

theorem loadBegin (h : Bound hs m) {f : Manager.Files} {force : Bool} {name : String}
    {adapter : Option String} : Bound hs (m.loadBegin S f force name adapter).1 :=
  Manager.loadBegin_preserves (fun _ c h ↦ h.costs c) (fun _ _ _ h ↦ h.dropKey)
    (fun _ _ _ h ↦ h.popReplaced) (fun _ _ _ hl h ↦ h.touch hl) h

theorem unloadModel (h : Bound hs m) : Bound hs (m.unloadModel S key) := by
  rw [Manager.unloadModel]
  split
  · exact h.dropKey
  · exact h

/-- A new object enters the cache; no handle is on it yet. -/
theorem place (h : Bound hs m) {name : String} (hlt : ∀ k l', m.models.lookup k = some l' → l' < l)
    (hhs : ∀ x ∈ hs, x.llama < l) (hl : l < m.fresh) : Bound hs (m.place name key l) := by
  have hold : ∀ {k l'}, (m.models.insert key l).lookup k = some l' →
      (k = key ∧ l' = l) ∨ m.models.lookup k = some l' := by
    intro k l' hl'
    by_cases hk : k = key
    · subst hk
      rw [AList.lookup_insert, Option.some.injEq] at hl'
      exact .inl ⟨rfl, hl'.symm⟩
    · rw [AList.lookup_insert_ne hk] at hl'
      exact .inr hl'
  constructor
  · intro k l' hl'
    rcases hold hl' with ⟨-, rfl⟩ | hl'
    · exact hl
    · exact h.fresh k l' hl'
  · exact h.fresh_handle
  · intro k k' l' hk hk'
    rcases hold hk with ⟨hkey, he⟩ | hk <;> rcases hold hk' with ⟨hkey', he'⟩ | hk'
    · rw [hkey, hkey']
    · exact absurd (hlt _ _ hk') (he ▸ Nat.lt_irrefl _)
    · exact absurd (hlt _ _ hk) (he' ▸ Nat.lt_irrefl _)
    · exact h.key_unique k k' l' hk hk'
  · intro x hx k hk
    rcases hold hk with ⟨-, he⟩ | hk
    · exact absurd (he ▸ hhs x hx) (Nat.lt_irrefl _)
    · exact h.lock x hx k hk
  · exact h.agree

theorem construct (h : Bound hs m) {force : Bool} : Bound hs (m.construct key force) where
  fresh k l hl := Nat.lt_succ_of_lt (h.fresh k l hl)
  fresh_handle x hx := Nat.lt_succ_of_lt (h.fresh_handle x hx)
  key_unique := h.key_unique
  lock := h.lock
  agree := h.agree

/-- The second half of a load. -/
theorem loadEnd (h : Bound hs m) {force : Bool} {name : String} {adapter : Option String} :
    Bound hs (m.loadEnd S force name adapter).1 := by
  obtain ⟨m', hm', hcases⟩ := Manager.loadEnd_cases S m force name adapter
  -- evictions keep the new identity above all resident ones
  obtain ⟨hb, hf, hlt⟩ : Bound hs m' ∧ m'.fresh = m.fresh + 1 ∧
      ∀ k l, m'.models.lookup k = some l → l < m.fresh := by
    refine hm' (fun m' ↦ Bound hs m' ∧ m'.fresh = m.fresh + 1 ∧
      ∀ k l, m'.models.lookup k = some l → l < m.fresh) ?_ ⟨h.construct, rfl, h.fresh⟩
    rintro m' k - ⟨hb, hf, hlt⟩
    refine ⟨hb.dropKey, hf, fun k' l hl ↦ hlt k' l ?_⟩
    rwa [Manager.dropKey, AList.lookup_erase_ne (ne_of_lookup_erase hl)] at hl
  rcases hcases with he | ⟨-, -, he⟩ <;> rw [he]
  · exact hb.place hlt h.fresh_handle (hf ▸ Nat.lt_succ_self _)
  · exact hb

/-- A handle on a resident object gets the lock that the other handles on it carry. -/
theorem getInferenceLock (h : Bound hs m) (hl : m.models.lookup key = some l) :
    Bound (⟨l, (m.getInferenceLock key).2⟩ :: hs) (m.getInferenceLock key).1 := by
  -- the lock under the key, if there is one, is that of the handles on `l`
  have hsame : ∀ x ∈ hs, x.llama = l → (m.getInferenceLock key).2 = x.lock := by
    intro x hx he
    rw [Manager.getInferenceLock, h.lock x hx key (he ▸ hl)]
  have hfresh : m.fresh ≤ (m.getInferenceLock key).1.fresh := by
    rw [Manager.getInferenceLock]
    split
    · exact Nat.le_refl _
    · exact Nat.le_succ _
  have hself : (m.getInferenceLock key).1.inferLocks key = some (m.getInferenceLock key).2 := by
    cases hk : m.inferLocks key <;> simp [Manager.getInferenceLock, hk]
  have hother : ∀ k, k ≠ key → (m.getInferenceLock key).1.inferLocks k = m.inferLocks k := by
    intro k hk
    cases hk' : m.inferLocks key <;> simp [Manager.getInferenceLock, hk', hk]
  constructor
  · rw [Manager.getInferenceLock_models]
    exact fun k l' hl' ↦ Nat.lt_of_lt_of_le (h.fresh k l' hl') hfresh
  · rintro x (_ | ⟨_, hx⟩)
    · exact Nat.lt_of_lt_of_le (h.fresh key l hl) hfresh
    · exact Nat.lt_of_lt_of_le (h.fresh_handle x hx) hfresh
  · rw [Manager.getInferenceLock_models]
    exact h.key_unique
  · rw [Manager.getInferenceLock_models]
    rintro x (_ | ⟨_, hx⟩) k hk
    · rw [h.key_unique k key l hk hl, hself]
    · by_cases hkey : k = key
      · subst hkey
        have he : x.llama = l := Option.some.inj (hk.symm.trans hl)
        rw [hself, hsame x hx he]
      · rw [hother k hkey]
        exact h.lock x hx k hk
  · rintro x (_ | ⟨_, hx⟩) y (_ | ⟨_, hy⟩) he
    · rfl
    · exact hsame y hy he.symm
    · exact (hsame x hx he).symm
    · exact h.agree x hx y hy he

end Bound

/-! ## Constructions -/

/-- The objects that loads which are not forced have constructed for a key since it last
left the cache. -/
def builds (key : String) : List Event → Nat
  | [] => 0
  | .built k forced :: tr => builds key tr + if k = key ∧ forced = false then 1 else 0
  | .removed k :: tr => if k = key then 0 else builds key tr

/-- At most one construction for the key, and none unless it is resident. -/
structure Once (key : String) (m : Manager) : Prop where
  le_one : builds key m.trace ≤ 1
  absent : key ∉ m.models → builds key m.trace = 0

namespace Once

variable {k : String} {l : Obj}

theorem erase (h : Once key m) {m' : Manager} (hm : m'.models = m.models.erase k)
    (ht : m'.trace = .removed k :: m.trace) : Once key m' := by
  constructor
  · rw [ht, builds]
    split
    · exact Nat.zero_le _
    · exact h.le_one
  · intro hkey
    rw [ht, builds]
    split
    · rfl
    · next hk =>
        refine h.absent fun hmem ↦ hkey ?_
        rw [hm, AList.mem_erase]
        exact ⟨fun he ↦ hk he.symm, hmem⟩

theorem dropKey (h : Once key m) : Once key (m.dropKey S k) := h.erase rfl rfl

theorem popReplaced (h : Once key m) : Once key (m.popReplaced k) := h.erase rfl rfl

theorem touch (h : Once key m) : Once key { m with models := m.models.insert k l } :=
  ⟨h.le_one, fun hkey ↦ h.absent fun hmem ↦ hkey (AList.mem_insert _ |>.mpr (.inr hmem))⟩

theorem loadBegin (h : Once key m) {f : Manager.Files} {force : Bool} {name : String}
    {adapter : Option String} : Once key (m.loadBegin S f force name adapter).1 :=
  Manager.loadBegin_preserves (fun _ _ h ↦ ⟨h.le_one, h.absent⟩) (fun _ _ _ h ↦ h.dropKey)
    (fun _ _ _ h ↦ h.popReplaced) (fun _ _ _ _ h ↦ h.touch) h

theorem unloadModel (h : Once key m) : Once key (m.unloadModel S k) := by
  rw [Manager.unloadModel]
  split
  · exact h.dropKey
  · exact h

theorem getInferenceLock (h : Once key m) : Once key (m.getInferenceLock k).1 := by
  rw [Manager.getInferenceLock]
  split <;> exact ⟨h.le_one, h.absent⟩

/-- The second half of a load.  One that is not forced has found the key absent, and
puts it into the cache. -/
theorem loadEnd (h : Once key m) {force : Bool} {name : String} {adapter : Option String}
    (hnew : force = false → cacheKey name adapter ∉ m.models ∧ 0 < S.maxLoadedModels) :
    Once key (m.loadEnd S force name adapter).1 := by
  obtain ⟨m', hm', hcases⟩ := Manager.loadEnd_cases S m force name adapter
  by_cases hk : cacheKey name adapter = key ∧ force = false
  · -- the object counts, so the key was absent and is resident afterwards
    obtain ⟨rfl, rfl⟩ := hk
    obtain ⟨habs, hcap⟩ := hnew rfl
    have hle : builds (cacheKey name adapter) m'.trace ≤ 1 := by
      refine hm' (fun m' ↦ builds (cacheKey name adapter) m'.trace ≤ 1) ?_ ?_
      · intro m' k _ hle
        rw [Manager.dropKey, builds]
        split
        · exact Nat.zero_le _
        · exact hle
      · simp [Manager.construct, builds, h.absent habs]
    rcases hcases with he | ⟨hzero, -, -⟩
    · rw [he]
      exact ⟨hle, fun hkey ↦ absurd (AList.mem_insert _ |>.mpr (.inl rfl)) hkey⟩
    · exact absurd hzero (Nat.ne_of_gt hcap)
  · have hb : Once key m' := by
      apply hm' (Once key) (fun _ _ _ h ↦ h.dropKey)
      constructor
      · simpa [Manager.construct, builds, hk] using h.le_one
      · intro hkey
        simpa [Manager.construct, builds, hk] using h.absent hkey
    rcases hcases with he | ⟨-, -, he⟩ <;> rw [he]
    · exact ⟨hb.le_one, hb.touch.absent⟩
    · exact hb

end Once

/-! ## The system -/

variable {s s' : State} {a : Act} {i j : ReqId} {l : Obj}

/-- A construction in progress is under `_load_lock`, and unless it is forced, its key is
not resident. -/
def Exclusive (S : Settings) (s : State) (i : ReqId) : Prop :=
  (s.reqs i).pc = .building → s.loadLock = some i ∧
    ((s.reqs i).op.forced = false → (s.reqs i).key S ∉ s.mgr.models ∧ 0 < S.maxLoadedModels)

/-- The invariant of the cache. -/
structure Inv (S : Settings) (s : State) : Prop where
  bound : Bound s.handles s.mgr
  once : ∀ key, Once key s.mgr
  building : ∀ i, Exclusive S s i

theorem State.setPc_reqs_of_ne {pc : ReqPc} (h : j ≠ i) : (s.setPc i pc).reqs j = s.reqs j := by
  simp [State.setPc, h]

theorem State.setPc_pc {pc : ReqPc} : ((s.setPc i pc).reqs i).pc = pc := by
  simp [State.setPc]

/-- A request that leaves with a model moves no key, and changes neither costs nor flags. -/
theorem State.deliver_mgr : (s.deliver S i l).mgr.models = s.mgr.models ∧
    (s.deliver S i l).mgr.costs = s.mgr.costs ∧ (s.deliver S i l).mgr.loaded = s.mgr.loaded ∧
    (s.deliver S i l).loadLock = s.loadLock := by
  have hlock : ∀ key, (s.mgr.getInferenceLock key).1.costs = s.mgr.costs ∧
      (s.mgr.getInferenceLock key).1.loaded = s.mgr.loaded := by
    intro key
    rw [Manager.getInferenceLock]
    split
    · exact ⟨rfl, rfl⟩
    · exact ⟨rfl, rfl⟩
  rw [State.deliver]
  split
  · exact ⟨Manager.getInferenceLock_models, (hlock _).1, (hlock _).2, rfl⟩
  · exact ⟨rfl, rfl, rfl, rfl⟩

/-- Where no request holds `_load_lock`, none is constructing. -/
theorem Inv.not_building (h : Inv S s) (hl : s.loadLock = none) : (s.reqs i).pc ≠ .building := by
  intro hi
  rw [(h.building i hi).1] at hl
  cases hl

namespace Inv

protected theorem init : Inv S State.init where
  bound :=
    { fresh := fun k l hl ↦ by simp [State.init, Manager.init] at hl
      fresh_handle := fun x hx ↦ by simp [State.init] at hx
      key_unique := fun k k' l hl ↦ by simp [State.init, Manager.init] at hl
      lock := fun x hx ↦ by simp [State.init] at hx
      agree := fun x hx ↦ by simp [State.init] at hx }
  once key := ⟨Nat.zero_le _, fun _ ↦ rfl⟩
  building i hi := by simp [State.init] at hi

/-- A request ends; nothing is asked of it before. -/
theorem finish {o : Outcome} (hb : Bound s.handles s.mgr) (ho : ∀ key, Once key s.mgr)
    (hx : ∀ j, j ≠ i → Exclusive S s j) : Inv S (s.setPc i (.finished o)) := by
  refine ⟨hb, ho, ?_⟩
  intro j hj
  have hne : j ≠ i := by
    rintro rfl
    rw [State.setPc_pc] at hj
    cases hj
  rw [State.setPc_reqs_of_ne hne] at hj ⊢
  exact hx j hne hj

/-- A request leaves with a resident model. -/
theorem deliver (hb : Bound s.handles s.mgr) (ho : ∀ key, Once key s.mgr)
    (hx : ∀ j, j ≠ i → Exclusive S s j)
    (hl : s.mgr.models.lookup ((s.reqs i).key S) = some l) : Inv S (s.deliver S i l) := by
  rw [State.deliver]
  split
  · apply finish (hb.getInferenceLock hl) (fun key ↦ (ho key).getInferenceLock)
    intro j hj hpc
    obtain ⟨hlock, hkey⟩ := hx j hj hpc
    refine ⟨hlock, ?_⟩
    intro hf
    rw [Manager.getInferenceLock_models]
    exact hkey hf
  · exact finish hb ho hx

theorem call (h : Inv S s) {q : Req} : Inv S (s.call S i q) := by
  let s₁ : State := { s with reqs := Function.update s.reqs i { q with pc := .acquiring } }
  have hx : ∀ j, Exclusive S s₁ j := by
    intro j hj
    have hne : j ≠ i := by
      rintro rfl
      simp [s₁] at hj
    have hsame : s₁.reqs j = s.reqs j := Function.update_of_ne hne _ _
    rw [hsame] at hj ⊢
    exact h.building j hj
  have hfast : ∀ {l}, s.mgr.models.lookup (q.key S) = some l → Inv S
      (State.deliver S { s₁ with mgr.models := s.mgr.models.insert (q.key S) l } i l) := by
    intro l hl
    refine deliver (h.bound.touch hl) (fun key ↦ (h.once key).touch) ?_ ?_
    · -- moving a resident key to the end makes no key resident
      intro j _ hj
      obtain ⟨hlock, hkey⟩ := hx j hj
      refine ⟨hlock, fun hf ↦ ⟨?_, (hkey hf).2⟩⟩
      rw [← AList.lookup_eq_none, Bound.lookup_touch hl, AList.lookup_eq_none]
      exact (hkey hf).1
    · have hkey : Req.key S (s₁.reqs i) = q.key S := by simp [s₁, Req.key]
      rw [hkey]
      exact AList.lookup_insert _
  simp only [State.call]
  split
  · next hl => exact hfast hl
  · next hl => exact hfast hl
  · exact ⟨h.bound, h.once, hx⟩

theorem locked (h : Inv S s) (hl : s.loadLock = none) {f : Manager.Files} :
    Inv S (s.locked S i f) := by
  -- the lock is free, so nothing is being constructed
  have hx : ∀ (mgr : Manager) j, j ≠ i → Exclusive S { s with mgr := mgr } j :=
    fun mgr j _ hj ↦ absurd hj (h.not_building hl)
  rw [State.locked]
  dsimp only
  split
  · exact finish h.bound.unloadModel (fun key ↦ (h.once key).unloadModel) (hx _)
  · split
    · next hr =>
        exact deliver h.bound.loadBegin (fun key ↦ (h.once key).loadBegin) (hx _)
          (Manager.lookup_of_hit hr)
    · exact finish h.bound.loadBegin (fun key ↦ (h.once key).loadBegin) (hx _)
    · next hr =>
        refine ⟨h.bound.loadBegin, fun key ↦ (h.once key).loadBegin, ?_⟩
        intro j hj
        by_cases hne : j = i
        · subst hne
          refine ⟨rfl, ?_⟩
          intro hf
          have hf' : (s.reqs j).op.forced = false := by simpa [State.setPc] using hf
          rw [hf'] at hr
          simpa [State.setPc, Req.key, hf'] using Manager.loadBegin_build hr
        · rw [State.setPc_reqs_of_ne hne] at hj
          exact absurd hj (h.not_building hl)

theorem built (h : Inv S s) (hpc : (s.reqs i).pc = .building) {ok : Bool} :
    Inv S (s.built S i ok) := by
  -- the lock was ours, so no other construction is in progress
  have hx : ∀ (mgr : Manager) j, j ≠ i → Exclusive S { s with mgr := mgr, loadLock := none } j := by
    intro mgr j hne hj
    have hlock := (h.building i hpc).1
    rw [(h.building j hj).1] at hlock
    exact absurd (Option.some.inj hlock) hne
  rw [State.built]
  split
  · split
    · next hr =>
        apply deliver h.bound.loadEnd (fun key ↦ (h.once key).loadEnd (h.building i hpc).2) (hx _)
        exact Manager.lookup_of_loadEnd hr
    · exact finish h.bound.loadEnd (fun key ↦ (h.once key).loadEnd (h.building i hpc).2) (hx _)
  · exact finish h.bound h.once (hx _)

theorem step (h : Inv S s) (hn : Models.step S s a = some s') : Inv S s' := by
  cases a with
  | call i op modelName adapterPath =>
      simp only [Models.step, Option.ite_none_right_eq_some, Option.some.injEq] at hn
      obtain ⟨-, rfl⟩ := hn
      exact h.call
  | acquire i f =>
      simp only [Models.step, Option.ite_none_right_eq_some, Option.some.injEq] at hn
      obtain ⟨⟨-, hl⟩, rfl⟩ := hn
      exact h.locked hl
  | construct i ok =>
      simp only [Models.step, Option.ite_none_right_eq_some, Option.some.injEq] at hn
      obtain ⟨hpc, rfl⟩ := hn
      exact h.built hpc

end Inv

/-- **One lock per model instance.**  In every interleaving of `prepare`,
`ensure_model_loaded`, `load_model` (forced or not) and `evict`, with the evictions that
loads make: any two handles on one `Llama` object carry one lock, and the loads of a key
that are not forced construct at most one object for it until it leaves the cache. -/
theorem handles_agree_and_builds_le_one (S : Settings) (s : State) (h : (cache S).Reachable s) :
    (∀ x ∈ s.handles, ∀ y ∈ s.handles, x.llama = y.llama → x.lock = y.lock) ∧
      ∀ key, builds key s.mgr.trace ≤ 1 := by
  have hinv : Inv S s := h.invariant Inv.init fun _ _ _ hs _ hn ↦ hs.step hn
  exact ⟨hinv.bound.agree, fun key ↦ (hinv.once key).le_one⟩

/-- A catalog of two text models with room for one. -/
def oneSlot : Settings :=
  { maxLoadedModels := 1, budgetMb := none
    configs := fun name ↦ if name = "a" ∨ name = "b" then some ⟨false⟩ else none
    byHfId := fun _ ↦ none }

def Manager.Files.all : Manager.Files := ⟨true, true, true, true, some 1⟩

/-- Two requests miss the cache together, a second model evicts theirs, and a third
request loads it again. -/
def reloadRun : List Act :=
  [.call 0 .prepare "a" none, .call 1 .prepare "a" none,
    .acquire 0 .all, .construct 0 true, .acquire 1 .all,
    .call 2 .prepare "b" none, .acquire 2 .all, .construct 2 true,
    .call 3 .prepare "a" none, .acquire 3 .all, .construct 3 true]

/-- The hypothesis of `handles_agree_and_builds_le_one` is met by a run that loads, evicts
and reloads a key: the first two handles share an object and its lock, the last one is on
a new object. -/
theorem handles_agree_reloadRun : ∃ s, (cache oneSlot).Reachable s ∧
    s.handles = [⟨4, 5⟩, ⟨2, 3⟩, ⟨0, 1⟩, ⟨0, 1⟩] ∧
    (∀ x ∈ s.handles, ∀ y ∈ s.handles, x.llama = y.llama → x.lock = y.lock) ∧
    ∀ key, builds key s.mgr.trace ≤ 1 := by
  obtain ⟨s, hs, hr⟩ := System.Reach.of_exec (S := cache oneSlot) (g := fun _ _ ↦ True)
    (l := reloadRun) (f := State.handles) (b := [⟨4, 5⟩, ⟨2, 3⟩, ⟨0, 1⟩, ⟨0, 1⟩]) (by decide)
  exact ⟨s, hs, hr, handles_agree_and_builds_le_one oneSlot s hs⟩

end Adapta.Models
