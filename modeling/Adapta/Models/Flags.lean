import Adapta.Models.Room

/-!
# The `loaded` flags of the catalog

The `loaded` flag of a catalog entry is one boolean for all cache keys of that base: the bare
base and each base with an adapter.  It is put up by a load and put down whenever one of the
keys leaves, without a look at the others, and a forced reload that pops its own entry leaves
it up.  So the flag is right as long as the variants of a base leave together, and as long as a
reload that had to pop the last of them comes to its end (`loaded_iff_resident`).

The system is the one of `Adapta.Models.Loading` with direct calls of `unload_model`, which
take no lock, and with a record of the base whose last entry the load in progress has popped.
-/

namespace Adapta.Models.Flags

open Lib Room

variable {S : Settings} {m m' : Manager} {key k b name : String} {popped : Option String}

/-! ## Keys and bases -/

/-- The names in `model_catalog`. -/
def catalogNames : List String :=
  ["qwen2.5-0.5b-instruct", "qwen2.5-1.5b-instruct", "qwen2.5-3b-instruct", "qwen2.5-coder-3b",
    "qwen2.5-7b-instruct", "qwen2.5-vl-3b-instruct", "qwen2.5-vl-7b-instruct"]

/-- `_init_default_configs`: there is a configuration for every catalog entry and no other. -/
def FromCatalog (S : Settings) : Prop :=
  ∀ name, (S.configs name).isSome = true ↔ name ∈ catalogNames

/-- A text in which the separator cannot begin is all before the separator. -/
theorem beforeSep_append {l t : List Char} (h : ':' ∉ l) :
    beforeSep loraSep.toList (l ++ t) = l ++ beforeSep loraSep.toList t := by
  induction l with
  | nil => rfl
  | cons c l ih =>
      rw [List.mem_cons, not_or] at h
      have hsep : loraSep.toList.isPrefixOf (c :: (l ++ t)) = false := by
        simp [loraSep, List.isPrefixOf, h.1]
      rw [List.cons_append, beforeSep, hsep, ih h.2]
      rfl

theorem baseOf_cacheKey (hn : name ∈ catalogNames) (p : Option String) :
    baseOf (cacheKey name p) = name := by
  have hcolon : ':' ∉ name.toList := by
    revert hn name
    decide
  have hbare : baseOf name = name := by
    have h := beforeSep_append (t := []) hcolon
    rw [List.append_nil] at h
    rw [baseOf, h, beforeSep, List.append_nil, String.ofList_toList]
  cases p with
  | none => exact hbare
  | some path =>
      rw [cacheKey]
      split
      · exact hbare
      · rw [baseOf, String.toList_append, String.toList_append, List.append_assoc,
          beforeSep_append hcolon]
        have hsep : beforeSep loraSep.toList (loraSep.toList ++ path.toList) = [] := by
          simp [loraSep, beforeSep, List.isPrefixOf]
        rw [hsep, List.append_nil, String.ofList_toList]

/-! ## The system -/

/-- The checks of `load_model` that come before it makes room: it is no hit, the model is in the
catalog, its files are there, and the model by itself fits into the budget. -/
def makesRoom (S : Settings) (m : Manager) (f : Manager.Files) (forceReload : Bool)
    (servingName : String) (adapterPath : Option String) : Bool :=
  (cacheKey servingName adapterPath ∉ m.models || forceReload) &&
    (S.configs servingName).any (fun config ↦
      f.model && (!adapterPath.any (· ≠ "") || f.adapter) &&
        (!config.vision || (f.mmproj && f.chatHandler))) &&
    affordable S f.costMb

/-- The checks that come before the estimate of the cost. -/
def passes (S : Settings) (m : Manager) (f : Manager.Files) (forceReload : Bool)
    (servingName : String) (adapterPath : Option String) : Bool :=
  (cacheKey servingName adapterPath ∉ m.models || forceReload) &&
    (S.configs servingName).any fun config ↦
      f.model && (!adapterPath.any (· ≠ "") || f.adapter) &&
        (!config.vision || (f.mmproj && f.chatHandler))

theorem makesRoom_eq (S : Settings) (m : Manager) (f : Manager.Files) (forceReload : Bool)
    (servingName : String) (adapterPath : Option String) :
    makesRoom S m f forceReload servingName adapterPath =
      (passes S m f forceReload servingName adapterPath && affordable S f.costMb) := rfl

/-- No other cache key of the same base is resident. -/
def LastOfBase (m : Manager) (key : String) : Prop :=
  ∀ k ∈ m.models.keys, baseOf k = baseOf key → k = key

instance : Decidable (LastOfBase m key) := List.decidableBAll _ _

/-- Making room for `key` leaves no variant of a base without the others; `key` itself may go. -/
def Together (S : Settings) (m : Manager) (key : String) (costMb : Option Nat) : Prop :=
  ∀ k ∈ m.models.keys, ∀ k' ∈ stay S m key costMb, k ≠ key → baseOf k = baseOf k' →
    k ∈ stay S m key costMb

instance {costMb : Option Nat} : Decidable (Together S m key costMb) := List.decidableBAll _ _

/-- One atomic step: of the cache, or a call of `unload_model`. -/
inductive Act where
  | cache (a : Models.Act)
  | unload (key : String)
deriving DecidableEq, Repr

def step (S : Settings) (s : State) : Act → Option State
  | .cache a => Models.step S s a
  | .unload key => some { s with mgr := s.mgr.unloadModel S key }

/-- The base whose last entry this load pops, to load it again. -/
def popsLast (S : Settings) (s : State) (i : ReqId) (f : Manager.Files) : Option String :=
  let q := s.reqs i
  let servingName := S.resolveServingName q.modelName
  if q.op ≠ .evict ∧ makesRoom S s.mgr f q.op.forced servingName q.adapterPath = true ∧
      q.key S ∈ s.mgr.models ∧ q.key S ∉ stay S s.mgr (q.key S) f.costMb ∧
      LastOfBase s.mgr (q.key S) then
    some servingName
  else none

/-- What the load in progress has popped. -/
def record (S : Settings) (s : State) : Act → Option String → Option String
  | .cache (.acquire i f), _ => popsLast S s i f
  | .cache (.construct _ _), _ => none
  | .cache (.call _ _ _ _), popped | .unload _, popped => popped

/-- The model cache with `unload_model`, and with the record of popped entries. -/
def flags (S : Settings) : System (State × Option String) Act :=
  System.ghost ⟨State.init, step S⟩ none (record S)

/-- The condition: an `evict` or `unload_model` takes the last variant of its base, making room
takes all variants of a base or none, and no constructor raises after the last entry of its base
has been popped for it. -/
def Careful (S : Settings) (x : State × Option String) : Act → Prop
  | .cache (.call _ _ _ _) => True
  | .cache (.acquire i f) =>
      let q := x.1.reqs i
      if q.op = .evict then q.key S ∈ x.1.mgr.models → LastOfBase x.1.mgr (q.key S)
      else
        makesRoom S x.1.mgr f q.op.forced (S.resolveServingName q.modelName) q.adapterPath = true →
          Together S x.1.mgr (q.key S) f.costMb
  | .cache (.construct _ ok) => ok = true ∨ x.2 = none
  | .unload key => key ∈ x.1.mgr.models → LastOfBase x.1.mgr key

instance (x : State × Option String) (a : Act) : Decidable (Careful S x a) :=
  match a with
  | .cache (.call _ _ _ _) => inferInstanceAs (Decidable True)
  | .cache (.acquire _ _) => inferInstanceAs (Decidable (ite _ _ _))
  | .cache (.construct _ ok) => inferInstanceAs (Decidable (ok = true ∨ x.2 = none))
  | .unload key => inferInstanceAs (Decidable (key ∈ x.1.mgr.models → LastOfBase x.1.mgr key))

/-- A forced load of a base is constructing. -/
def Reloading (S : Settings) (s : State) (b : String) : Prop :=
  ∃ i, (s.reqs i).pc = .building ∧ (s.reqs i).op.forced = true ∧
    S.resolveServingName (s.reqs i).modelName = b

/-! ## The first half of a load -/

section LoadBegin

variable {f : Manager.Files} {force : Bool} {adapter : Option String}

/-- A load that is no hit goes on to the checks. -/
theorem loadBegin_miss (h : cacheKey name adapter ∉ m.models ∨ force = true) :
    m.loadBegin S f force name adapter = m.loadBegin S f true name adapter := by
  rcases h with h | rfl
  · rw [← AList.lookup_eq_none] at h
    simp only [Manager.loadBegin, h]
  · rfl

theorem loadBegin_hit {llama : Obj} (h : m.models.lookup (cacheKey name adapter) = some llama) :
    m.loadBegin S f false name adapter =
      ({ m with models := m.models.insert (cacheKey name adapter) llama }, .hit llama) := by
  simp only [Manager.loadBegin, h]

/-- A forced load comes to make room if the checks before it are passed; if not, it raises. -/
theorem loadBegin_passes (S : Settings) (m : Manager) (f : Manager.Files) (name : String)
    (adapter : Option String) :
    (∃ e, m.loadBegin S f true name adapter = (m, .raised e)) ∧
        passes S m f true name adapter = false ∨
      m.loadBegin S f true name adapter =
          ((m.makeRoomFor S (cacheKey name adapter) f.costMb).1,
            (m.makeRoomFor S (cacheKey name adapter) f.costMb).2.elim .build .raised) ∧
        passes S m f true name adapter = true := by
  simp only [Manager.loadBegin, passes, Bool.or_true, Bool.true_and]
  split
  · next heq => cases heq
  cases hc : S.configs name with
  | none => exact .inl ⟨⟨_, rfl⟩, rfl⟩
  | some config =>
      dsimp only [Option.any_some]
      by_cases hmodel : f.model = false
      · rw [if_pos hmodel, hmodel]
        exact .inl ⟨⟨_, rfl⟩, rfl⟩
      rw [if_neg hmodel]
      by_cases hadapter : adapter.any (· ≠ "") ∧ f.adapter = false
      · rw [if_pos hadapter]
        exact .inl ⟨⟨_, rfl⟩, by rw [hadapter.1, hadapter.2]; simp⟩
      rw [if_neg hadapter]
      by_cases hmmproj : config.vision ∧ f.mmproj = false
      · rw [if_pos hmmproj]
        exact .inl ⟨⟨_, rfl⟩, by simp [hmmproj.1, hmmproj.2]⟩
      rw [if_neg hmmproj]
      by_cases hchat : config.vision ∧ f.chatHandler = false
      · rw [if_pos hchat]
        exact .inl ⟨⟨_, rfl⟩, by simp [hchat.1, hchat.2]⟩
      rw [if_neg hchat]
      refine .inr ⟨rfl, ?_⟩
      simp only [not_and, Bool.not_eq_false] at hmodel hadapter hmmproj hchat
      rw [hmodel]
      cases ha : adapter.any (· ≠ "") <;> cases hv : config.vision <;> simp_all

/-- And it makes room if the model also fits into the budget. -/
theorem loadBegin_forced (S : Settings) (m : Manager) (f : Manager.Files) (name : String)
    (adapter : Option String) :
    (∃ e, m.loadBegin S f true name adapter = (m, .raised e)) ∧
        makesRoom S m f true name adapter = false ∨
      m.loadBegin S f true name adapter =
          ((m.makeRoomFor S (cacheKey name adapter) f.costMb).1,
            (m.makeRoomFor S (cacheKey name adapter) f.costMb).2.elim .build .raised) ∧
        makesRoom S m f true name adapter = affordable S f.costMb := by
  rcases loadBegin_passes S m f name adapter with ⟨hraise, hp⟩ | ⟨hroom, hp⟩
  · refine .inl ⟨hraise, ?_⟩
    rw [makesRoom_eq, hp, Bool.false_and]
  · refine .inr ⟨hroom, ?_⟩
    rw [makesRoom_eq, hp, Bool.true_and]

theorem loadBegin_of_makesRoom (h : makesRoom S m f force name adapter = true) :
    m.loadBegin S f force name adapter =
        ((m.makeRoomFor S (cacheKey name adapter) f.costMb).1,
          (m.makeRoomFor S (cacheKey name adapter) f.costMb).2.elim .build .raised) ∧
      affordable S f.costMb = true := by
  have hmiss : cacheKey name adapter ∉ m.models ∨ force = true := by
    simp only [makesRoom, Bool.and_eq_true, Bool.or_eq_true, decide_eq_true_eq] at h
    exact h.1.1
  have hforced : makesRoom S m f true name adapter = true := by
    simp only [makesRoom, Bool.and_eq_true] at h ⊢
    exact ⟨⟨by simp, h.1.2⟩, h.2⟩
  rw [loadBegin_miss hmiss]
  rcases loadBegin_forced S m f name adapter with
    ⟨-, hno⟩ | ⟨hroom, haff⟩
  · rw [hno] at hforced
    cases hforced
  · exact ⟨hroom, haff ▸ hforced⟩

/-- A load that does not come to make room removes nothing. -/
theorem loadBegin_of_not_makesRoom (h : makesRoom S m f force name adapter = false) :
    (∀ k, k ∈ (m.loadBegin S f force name adapter).1.models ↔ k ∈ m.models) ∧
      (m.loadBegin S f force name adapter).1.loaded = m.loaded ∧
      (m.loadBegin S f force name adapter).2 ≠ .build := by
  by_cases hmiss : cacheKey name adapter ∉ m.models ∨ force = true
  · have hforced : makesRoom S m f true name adapter = false := by
      have hfirst : (decide (cacheKey name adapter ∉ m.models) || force) = true := by
        simpa using hmiss
      rw [makesRoom, hfirst] at h
      simpa [makesRoom] using h
    rw [loadBegin_miss hmiss]
    rcases loadBegin_forced S m f name adapter with
      ⟨⟨e, hraise⟩, -⟩ | ⟨hroom, haff⟩
    · rw [hraise]
      exact ⟨fun k ↦ Iff.rfl, rfl, by simp⟩
    · obtain ⟨hm, hl, hne⟩ := makeRoomFor_of_not_affordable m (cacheKey name adapter)
        (haff.symm.trans hforced)
      obtain ⟨e, he⟩ := Option.ne_none_iff_exists'.mp hne
      rw [hroom]
      exact ⟨fun k ↦ by rw [hm], hl, by simp [he]⟩
  · rw [not_or, not_not, Bool.not_eq_true] at hmiss
    obtain ⟨hmem, rfl⟩ := hmiss
    obtain ⟨llama, hl⟩ := Option.isSome_iff_exists.mp (AList.lookup_isSome.mpr hmem)
    rw [loadBegin_hit hl]
    refine ⟨?_, rfl, by simp⟩
    intro k
    rw [AList.mem_insert]
    exact or_iff_right_of_imp fun heq ↦ heq ▸ hmem

end LoadBegin

/-! ## The flags and the tables -/

/-- The flags are right but for the base that has been popped, the keys are keys of the catalog,
and the cap is kept. -/
structure Told (S : Settings) (popped : Option String) (m : Manager) : Prop where
  keys : ∀ k ∈ m.models, ∃ name p, name ∈ catalogNames ∧ k = cacheKey name p
  up : ∀ k ∈ m.models, m.loaded (baseOf k) = true
  down : ∀ b, m.loaded b = true → (∃ k ∈ m.models, baseOf k = b) ∨ popped = some b
  cap : m.models.keys.length ≤ S.maxLoadedModels

theorem length_le_of_subset (h : ∀ k ∈ m'.models, k ∈ m.models) :
    m'.models.keys.length ≤ m.models.keys.length := by
  have hsub : m'.models.keys ⊆ m.models.keys := fun k hk ↦
    AList.mem_keys.mp (h k (AList.mem_keys.mpr hk))
  exact (List.subperm_of_subset m'.models.keys_nodup hsub).length_le

theorem length_lt_of_subset (h : ∀ k ∈ m'.models, k ∈ m.models) (hk : k ∈ m.models)
    (hgone : k ∉ m'.models) : m'.models.keys.length < m.models.keys.length := by
  have hsub : k :: m'.models.keys ⊆ m.models.keys := by
    intro k' hk'
    rcases List.mem_cons.mp hk' with rfl | hk'
    · exact AList.mem_keys.mp hk
    · exact AList.mem_keys.mp (h k' (AList.mem_keys.mpr hk'))
  have hnodup : (k :: m'.models.keys).Nodup :=
    List.nodup_cons.mpr ⟨fun hmem ↦ hgone (AList.mem_keys.mpr hmem), m'.models.keys_nodup⟩
  exact (List.subperm_of_subset hnodup hsub).length_le

namespace Told

theorem congr (h : Told S popped m) (hm : ∀ k, k ∈ m'.models ↔ k ∈ m.models)
    (hl : m'.loaded = m.loaded) : Told S popped m' where
  keys k hk := h.keys k ((hm k).mp hk)
  up k hk := by
    rw [hl]
    exact h.up k ((hm k).mp hk)
  down b hb := by
    rw [hl] at hb
    apply (h.down b hb).imp_left
    rintro ⟨k, hk, hbase⟩
    exact ⟨k, (hm k).mpr hk, hbase⟩
  cap := (length_le_of_subset fun k ↦ (hm k).mp).trans h.cap

/-- Keys leave, and with each of them but `key` all variants of its base. -/
theorem purge (h : Told S none m) (hp : Purged S key m m') (hcat : FromCatalog S)
    (htogether : ∀ k ∈ m.models, k ∉ m'.models → k ≠ key → ∀ k' ∈ m'.models,
      baseOf k ≠ baseOf k')
    (hpopped : key ∈ m.models → key ∉ m'.models → LastOfBase m key → popped = some (baseOf key)) :
    Told S popped m' where
  keys k hk := h.keys k (hp.subset k hk)
  up k hk := by
    rw [hp.loaded]
    exact ⟨h.up k (hp.subset k hk), fun k' hk' hgone hne _ ↦ htogether k' hk' hgone hne k hk⟩
  down b hb := by
    obtain ⟨hb, hgone⟩ := (hp.loaded b).mp hb
    obtain ⟨k, hk, rfl⟩ := (h.down b hb).resolve_right (by simp)
    -- a variant of the base that has left is the one that is loaded again
    have hleft : ∀ k' ∈ m.models, baseOf k' = baseOf k → k' ∉ m'.models → k' = key := by
      intro k' hk' hbase hno
      by_contra hne
      obtain ⟨name, p, hname, rfl⟩ := h.keys k' hk'
      refine hgone _ hk' hno hne ?_ hbase
      rw [baseOf_cacheKey hname]
      exact (hcat name).mpr hname
    by_contra hno
    rw [not_or, not_exists] at hno
    have hnone : ∀ k' ∈ m.models, baseOf k' = baseOf k → k' = key :=
      fun k' hk' hbase ↦ hleft k' hk' hbase fun hin ↦ hno.1 k' ⟨hin, hbase⟩
    obtain rfl := hnone k hk rfl
    exact hno.2 (hpopped hk (fun hin ↦ hno.1 k ⟨hin, rfl⟩) fun k' hk' ↦
      hnone k' (AList.mem_keys.mpr hk'))
  cap := (length_le_of_subset hp.subset).trans h.cap

/-- One key leaves, the last of its base. -/
theorem dropKey (h : Told S popped m) (hlast : LastOfBase m key) (hk : key ∈ m.models)
    (hcat : FromCatalog S) : Told S popped (m.dropKey S key) where
  keys k hk := h.keys k (AList.mem_erase.mp hk).2
  up k hk' := by
    obtain ⟨hne, hk'⟩ := AList.mem_erase.mp hk'
    have hbase : baseOf k ≠ baseOf key := fun heq ↦ hne (hlast k (AList.mem_keys.mp hk') heq)
    simp only [Manager.dropKey]
    split
    · rw [Function.update_of_ne hbase]
      exact h.up k hk'
    · exact h.up k hk'
  down b hb := by
    obtain ⟨name, p, hname, rfl⟩ := h.keys key hk
    have hconfig : (S.configs (baseOf (cacheKey name p))).isSome = true := by
      rw [baseOf_cacheKey hname]
      exact (hcat name).mpr hname
    simp only [Manager.dropKey, if_pos hconfig] at hb
    by_cases hbase : b = baseOf (cacheKey name p)
    · subst hbase
      rw [Function.update_self] at hb
      cases hb
    · rw [Function.update_of_ne hbase] at hb
      apply (h.down b hb).imp_left
      rintro ⟨k, hk, rfl⟩
      exact ⟨k, AList.mem_erase.mpr ⟨fun heq ↦ hbase (heq ▸ rfl), hk⟩, rfl⟩
  cap := (length_le_of_subset fun k hk ↦ (AList.mem_erase.mp hk).2).trans h.cap

theorem unloadModel (h : Told S popped m) (hlast : key ∈ m.models → LastOfBase m key)
    (hcat : FromCatalog S) : Told S popped (m.unloadModel S key) := by
  rw [Manager.unloadModel]
  split
  · next hk => exact h.dropKey (hlast hk) hk hcat
  · exact h

/-- The object of a load is stored. -/
theorem place {p : Option String} (h : Told S popped m) (llama : Obj)
    (hpopped : ∀ b, popped = some b → b = name) (hname : name ∈ catalogNames)
    (hroom : cacheKey name p ∈ m.models ∨ m.models.keys.length < S.maxLoadedModels) :
    Told S none (m.place name (cacheKey name p) llama) where
  keys k hk := by
    rcases (AList.mem_insert _).mp hk with rfl | hk
    · exact ⟨name, p, hname, rfl⟩
    · exact h.keys k hk
  up k hk := by
    by_cases hbase : baseOf k = name
    · rw [hbase]
      exact Function.update_self ..
    · have hold : k ∈ m.models := by
        apply ((AList.mem_insert _).mp hk).resolve_left
        rintro rfl
        exact hbase (baseOf_cacheKey hname p)
      have hsame : (m.place name (cacheKey name p) llama).loaded (baseOf k) = m.loaded (baseOf k) :=
        Function.update_of_ne hbase _ _
      rw [hsame]
      exact h.up k hold
  down b hb := by
    apply Or.inl
    by_cases hbase : b = name
    · exact ⟨cacheKey name p, (AList.mem_insert _).mpr (.inl rfl),
        by rw [baseOf_cacheKey hname, hbase]⟩
    · have hsame : (m.place name (cacheKey name p) llama).loaded b = m.loaded b :=
        Function.update_of_ne hbase _ _
      rw [hsame] at hb
      obtain ⟨k, hk, hk'⟩ := (h.down b hb).resolve_right fun heq ↦ hbase (hpopped b heq)
      exact ⟨k, (AList.mem_insert _).mpr (.inr hk), hk'⟩
  cap := by
    rw [Manager.place, AList.keys_insert, List.length_cons]
    rcases hroom with hin | hlt
    · have hmem := AList.mem_keys.mp hin
      have hpos := List.length_pos_of_mem hmem
      rw [List.length_erase_of_mem hmem]
      have := h.cap
      omega
    · have hle : (m.models.keys.erase (cacheKey name p)).length ≤ m.models.keys.length :=
        List.length_erase_le
      omega

end Told

/-! ## Steps -/

variable {s s' : State} {i : ReqId} {l : Obj}

/-- The catalog name a request is about. -/
def servingName (S : Settings) (q : Req) : String := S.resolveServingName q.modelName

structure Inv (S : Settings) (x : State × Option String) : Prop where
  told : Told S x.2 x.1.mgr
  building : ∀ i, (x.1.reqs i).pc = .building →
    x.1.loadLock = some i ∧ servingName S (x.1.reqs i) ∈ catalogNames ∧
      ((x.1.reqs i).key S ∈ x.1.mgr.models ∨ x.1.mgr.models.keys.length < S.maxLoadedModels)
  reloading : ∀ b, x.2 = some b → Reloading S x.1 b

/-- The request of the step does not construct after it, and the others are where they were. -/
structure Ends (s : State) (i : ReqId) (s' : State) : Prop where
  reqs : ∀ j, j ≠ i → s'.reqs j = s.reqs j
  pc : (s'.reqs i).pc ≠ .building

theorem Ends.finish {t : State} {o : Outcome} (h : ∀ j, j ≠ i → t.reqs j = s.reqs j) :
    Ends s i (t.setPc i (.finished o)) := by
  refine ⟨fun j hj ↦ (State.setPc_reqs_of_ne hj).trans (h j hj), ?_⟩
  rw [State.setPc_pc]
  simp

theorem Ends.deliver {t : State} (h : ∀ j, j ≠ i → t.reqs j = s.reqs j) :
    Ends s i (t.deliver S i l) := by
  rw [State.deliver]
  split
  · exact .finish h
  · exact .finish h

theorem Told.deliver (h : Told S popped s.mgr) : Told S popped (s.deliver S i l).mgr := by
  obtain ⟨hm, -, hf, -⟩ := State.deliver_mgr (S := S) (s := s) (i := i) (l := l)
  exact h.congr (fun k ↦ by rw [hm]) hf

namespace Inv

protected theorem init : Inv S (State.init, none) where
  told :=
    { keys := fun k hk ↦ absurd hk (AList.notMem_empty k)
      up := fun k hk ↦ absurd hk (AList.notMem_empty k)
      down := fun b hb ↦ by cases hb
      cap := Nat.zero_le _ }
  building i hi := by cases hi
  reloading b hb := by cases hb

/-- Where no request holds `_load_lock`, none is constructing, and nothing is popped. -/
theorem idle {x : State × Option String} (h : Inv S x) (hl : x.1.loadLock = none) :
    (∀ j, (x.1.reqs j).pc ≠ .building) ∧ x.2 = none := by
  have hno : ∀ j, (x.1.reqs j).pc ≠ .building := by
    intro j hj
    rw [(h.building j hj).1] at hl
    cases hl
  refine ⟨hno, ?_⟩
  cases hp : x.2 with
  | none => rfl
  | some b =>
      obtain ⟨j, hj, -⟩ := h.reloading b hp
      exact absurd hj (hno j)

/-- A request ends that was not constructing, and the resident keys stay. -/
theorem of_same (h : Inv S (s, popped)) (hi : (s.reqs i).pc ≠ .building) (he : Ends s i s')
    (hm : ∀ k, k ∈ s'.mgr.models ↔ k ∈ s.mgr.models) (hf : s'.mgr.loaded = s.mgr.loaded)
    (hl : s'.loadLock = s.loadLock) : Inv S (s', popped) where
  told := h.told.congr hm hf
  building j hj := by
    have hne : j ≠ i := fun heq ↦ he.pc (heq ▸ hj)
    have hreq := he.reqs j hne
    rw [hreq] at hj
    obtain ⟨hlock, hname, hroom⟩ := h.building j hj
    refine ⟨hl.trans hlock, by rwa [hreq], ?_⟩
    rw [hreq, hm]
    exact hroom.imp_right (length_le_of_subset fun k ↦ (hm k).mp).trans_lt
  reloading b hb := by
    obtain ⟨j, hj, hforced, hname⟩ := h.reloading b hb
    have hne : j ≠ i := fun heq ↦ hi (heq ▸ hj)
    refine ⟨j, ?_⟩
    rw [he.reqs j hne]
    exact ⟨hj, hforced, hname⟩

/-- A request ends, and none is constructing then. -/
theorem of_idle (htold : Told S none s'.mgr) (hs : ∀ j, j ≠ i → (s.reqs j).pc ≠ .building)
    (he : Ends s i s') : Inv S (s', none) where
  told := htold
  building j hj := by
    have hne : j ≠ i := fun heq ↦ he.pc (heq ▸ hj)
    rw [he.reqs j hne] at hj
    exact absurd hj (hs j hne)
  reloading b hb := by cases hb

theorem call {q : Req} (h : Inv S (s, popped)) (hi : (s.reqs i).pc = .absent) :
    Inv S (s.call S i q, popped) := by
  have hnb : (s.reqs i).pc ≠ .building := by
    rw [hi]
    simp
  let s₁ : State := { s with reqs := Function.update s.reqs i { q with pc := .acquiring } }
  have hreqs : ∀ j, j ≠ i → s₁.reqs j = s.reqs j := fun j hj ↦ Function.update_of_ne hj _ _
  have hfast : ∀ {l}, s.mgr.models.lookup (q.key S) = some l → Inv S
      (State.deliver S { s₁ with mgr.models := s.mgr.models.insert (q.key S) l } i l, popped) := by
    intro l hl
    have hmem : q.key S ∈ s.mgr.models := AList.lookup_isSome.mp (by rw [hl]; rfl)
    obtain ⟨hm, -, hf, hlock⟩ := State.deliver_mgr (S := S) (i := i) (l := l)
      (s := { s₁ with mgr.models := s.mgr.models.insert (q.key S) l })
    refine h.of_same hnb (.deliver hreqs) ?_ hf hlock
    intro k
    rw [hm, AList.mem_insert]
    exact or_iff_right_of_imp fun heq ↦ heq ▸ hmem
  simp only [State.call]
  split
  · next hl => exact hfast hl
  · next hl => exact hfast hl
  · refine h.of_same hnb ⟨hreqs, ?_⟩ (fun k ↦ Iff.rfl) rfl rfl
    simp

theorem unload (h : Inv S (s, popped)) (hcat : FromCatalog S)
    (hlast : key ∈ s.mgr.models → LastOfBase s.mgr key) :
    Inv S ({ s with mgr := s.mgr.unloadModel S key }, popped) := by
  have hsub : ∀ k ∈ (s.mgr.unloadModel S key).models, k ∈ s.mgr.models := by
    intro k hk
    rw [Manager.unloadModel] at hk
    split at hk
    · exact (AList.mem_erase.mp hk).2
    · exact hk
  refine ⟨h.told.unloadModel hlast hcat, ?_, h.reloading⟩
  intro j hj
  obtain ⟨hlock, hname, hroom⟩ := h.building j hj
  refine ⟨hlock, hname, ?_⟩
  by_cases hin : (s.reqs j).key S ∈ (s.mgr.unloadModel S key).models
  · exact .inl hin
  · rcases hroom with hold | hlt
    · exact .inr ((length_lt_of_subset hsub hold hin).trans_le h.told.cap)
    · exact .inr ((length_le_of_subset hsub).trans_lt hlt)

/-- A load has made room. -/
theorem room {f : Manager.Files} (h : Inv S (s, popped)) (hl : s.loadLock = none)
    (hop : (s.reqs i).op ≠ .evict) (hcat : FromCatalog S)
    (hroom : makesRoom S s.mgr f (s.reqs i).op.forced (servingName S (s.reqs i))
      (s.reqs i).adapterPath = true)
    (htogether : Together S s.mgr ((s.reqs i).key S) f.costMb) :
    let r := s.mgr.makeRoomFor S ((s.reqs i).key S) f.costMb
    Told S (popsLast S s i f) r.1 ∧
      (r.2 = none → (s.reqs i).key S ∈ r.1.models ∨
        r.1.models.keys.length < S.maxLoadedModels) ∧
      (∀ b, popsLast S s i f = some b → r.2 = none ∧ (s.reqs i).op.forced = true ∧
        servingName S (s.reqs i) = b) := by
  intro r
  obtain ⟨hkeys, hpurged, hok⟩ := makeRoomFor_spec s.mgr ((s.reqs i).key S)
    (loadBegin_of_makesRoom hroom).2
  have hnone : popped = none := (h.idle hl).2
  have htold : Told S none s.mgr := hnone ▸ h.told
  have hmem : ∀ k, k ∈ r.1.models ↔ k ∈ stay S s.mgr ((s.reqs i).key S) f.costMb := by
    intro k
    rw [AList.mem_keys, hkeys]
  refine ⟨htold.purge hpurged hcat ?_ ?_, ?_, ?_⟩
  · intro k hk hgone hne k' hk' hbase
    exact hgone ((hmem k).mpr
      (htogether k (AList.mem_keys.mp hk) k' ((hmem k').mp hk') hne hbase))
  · intro hin hgone hlast
    obtain ⟨name, p, hname, hkey⟩ := htold.keys _ hin
    have hserving : servingName S (s.reqs i) ∈ catalogNames := by
      simp only [makesRoom, Bool.and_eq_true] at hroom
      refine (hcat _).mp (Option.isSome_of_any hroom.1.2)
    rw [popsLast, if_pos ⟨hop, hroom, hin, fun hstay ↦ hgone ((hmem _).mpr hstay), hlast⟩]
    exact congrArg some (baseOf_cacheKey hserving _).symm
  · intro hr
    by_cases hin : (s.reqs i).key S ∈ s.mgr.models
    · by_cases hgone : (s.reqs i).key S ∈ r.1.models
      · exact .inl hgone
      · exact .inr ((length_lt_of_subset hpurged.subset hin hgone).trans_le h.told.cap)
    · rw [hkeys]
      exact .inr (length_stay_lt hin (Manager.cap_pos_of_makeRoomFor hin hr))
  · intro b hb
    rw [popsLast] at hb
    split at hb
    · next hpop =>
        obtain ⟨-, -, hin, -⟩ := hpop
        simp only [makesRoom, Bool.and_eq_true, Bool.or_eq_true, decide_eq_true_eq] at hroom
        exact ⟨hok hin, hroom.1.1.resolve_left fun hno ↦ hno hin, Option.some.inj hb⟩
    · cases hb

/-- The first half of a load. -/
theorem loadBegin {f : Manager.Files} (h : Inv S (s, popped)) (hl : s.loadLock = none)
    (hop : (s.reqs i).op ≠ .evict) (hcat : FromCatalog S)
    (hg : makesRoom S s.mgr f (s.reqs i).op.forced (servingName S (s.reqs i))
      (s.reqs i).adapterPath = true → Together S s.mgr ((s.reqs i).key S) f.costMb) :
    let r := s.mgr.loadBegin S f (s.reqs i).op.forced (servingName S (s.reqs i))
      (s.reqs i).adapterPath
    Told S (popsLast S s i f) r.1 ∧
      (r.2 = .build → servingName S (s.reqs i) ∈ catalogNames ∧ ((s.reqs i).key S ∈ r.1.models ∨
        r.1.models.keys.length < S.maxLoadedModels)) ∧
      (∀ b, popsLast S s i f = some b → r.2 = .build ∧ (s.reqs i).op.forced = true ∧
        servingName S (s.reqs i) = b) := by
  intro r
  by_cases hroom : makesRoom S s.mgr f (s.reqs i).op.forced (servingName S (s.reqs i))
      (s.reqs i).adapterPath = true
  · obtain ⟨htold, hfits, hpop⟩ := h.room hl hop hcat hroom (hg hroom)
    have hr : r = (_, _) := (loadBegin_of_makesRoom hroom).1
    rw [hr]
    refine ⟨htold, fun hb ↦ ⟨?_, hfits ?_⟩, ?_⟩
    · simp only [makesRoom, Bool.and_eq_true] at hroom
      exact (hcat _).mp (Option.isSome_of_any hroom.1.2)
    · cases hnone : (s.mgr.makeRoomFor S ((s.reqs i).key S) f.costMb).2 with
      | none => rfl
      | some e =>
          have hraised : (some e).elim Manager.Begun.build .raised = .build := hnone ▸ hb
          cases hraised
    · intro b hb
      obtain ⟨hnone, hrest⟩ := hpop b hb
      exact ⟨congrArg (Option.elim · Manager.Begun.build .raised) hnone, hrest⟩
  · rw [Bool.not_eq_true] at hroom
    have hpop : popsLast S s i f = none :=
      if_neg fun hp ↦ absurd hp.2.1 (by rw [Bool.not_eq_true]; exact hroom)
    obtain ⟨hm, hf, hne⟩ := loadBegin_of_not_makesRoom hroom
    have hnone : popped = none := (h.idle hl).2
    rw [hpop]
    refine ⟨(hnone ▸ h.told).congr hm hf, fun hb ↦ absurd hb hne, ?_⟩
    rintro b ⟨⟩

theorem locked {f : Manager.Files} (h : Inv S (s, popped)) (hl : s.loadLock = none)
    (hcat : FromCatalog S) (hg : Careful S (s, popped) (.cache (.acquire i f))) :
    Inv S (s.locked S i f, popsLast S s i f) := by
  obtain ⟨hidle, rfl⟩ : (∀ j, (s.reqs j).pc ≠ .building) ∧ popped = none := h.idle hl
  simp only [Careful] at hg
  by_cases hop : (s.reqs i).op = .evict
  · rw [if_pos hop] at hg
    have hpop : popsLast S s i f = none := if_neg fun hp ↦ hp.1 hop
    rw [hpop, State.locked, hop]
    exact of_idle (s := s) (h.told.unloadModel hg hcat) (fun j _ ↦ hidle j)
      (.finish fun j _ ↦ rfl)
  rw [if_neg hop] at hg
  obtain ⟨htold, hbuild, hpop⟩ := h.loadBegin hl hop hcat hg
  have hnone : ∀ {o}, o ≠ .build → (s.mgr.loadBegin S f (s.reqs i).op.forced
      (servingName S (s.reqs i)) (s.reqs i).adapterPath).2 = o → popsLast S s i f = none := by
    intro o ho hr
    cases hp : popsLast S s i f with
    | none => rfl
    | some b => exact absurd (hr.symm.trans (hpop b hp).1) ho
  rw [State.locked]
  dsimp only
  split
  · next heq => exact absurd heq hop
  · split
    · next llama hr =>
        rw [hnone (by simp) hr] at htold ⊢
        exact of_idle (s := s) (Told.deliver htold) (fun j _ ↦ hidle j) (.deliver fun j _ ↦ rfl)
    · next e hr =>
        rw [hnone (by simp) hr] at htold ⊢
        exact of_idle (s := s) htold (fun j _ ↦ hidle j) (.finish fun j _ ↦ rfl)
    · next hr =>
        refine ⟨htold, ?_, ?_⟩
        · intro j hj
          by_cases hne : j = i
          · subst hne
            refine ⟨rfl, ?_⟩
            simpa [State.setPc, Req.key, servingName] using hbuild hr
          · rw [State.setPc_reqs_of_ne hne] at hj
            exact absurd hj (hidle j)
        · intro b hb
          obtain ⟨-, hforced, hname⟩ := hpop b hb
          refine ⟨i, State.setPc_pc, ?_⟩
          simpa [State.setPc, servingName] using And.intro hforced hname

/-- The second half of a load evicts nothing: the room is still there. -/
theorem loadEnd_of_room (force : Bool) {adapter : Option String}
    (hroom : cacheKey name adapter ∈ m.models ∨ m.models.keys.length < S.maxLoadedModels) :
    m.loadEnd S force name adapter =
      ((m.construct (cacheKey name adapter) force).place name (cacheKey name adapter) m.fresh,
        .ok m.fresh) := by
  have hevict : (if cacheKey name adapter ∈ m.models then
      (m.construct (cacheKey name adapter) force, true)
      else (m.construct (cacheKey name adapter) force).evictLruIfNeeded S) =
      (m.construct (cacheKey name adapter) force, true) := by
    split
    · rfl
    · next hno =>
        have hlen := hroom.resolve_left hno
        rw [Manager.evictLruIfNeeded, Manager.evictLruLoop]
        exact if_pos hlen
  have hmem : cacheKey name adapter ∈ (m.construct (cacheKey name adapter) force).models ↔
      cacheKey name adapter ∈ m.models := Iff.rfl
  simp only [Manager.loadEnd, hmem, hevict, if_true]

theorem built {ok : Bool} (h : Inv S (s, popped)) (hi : (s.reqs i).pc = .building)
    (hg : ok = true ∨ popped = none) : Inv S (s.built S i ok, none) := by
  obtain ⟨hlock, hname, hroom⟩ := h.building i hi
  have hidle : ∀ j, j ≠ i → (s.reqs j).pc ≠ .building := by
    intro j hne hj
    exact hne (Option.some.inj ((h.building j hj).1.symm.trans hlock))
  have hpopped : ∀ b, popped = some b → b = servingName S (s.reqs i) := by
    intro b hb
    obtain ⟨j, hj, -, hjname⟩ := h.reloading b hb
    obtain rfl : j = i := by
      by_contra hne
      exact hidle j hne hj
    exact hjname.symm
  rw [State.built]
  cases ok with
  | false =>
      obtain rfl := hg.resolve_left (by simp)
      exact of_idle (s := s) h.told hidle (.finish fun j _ ↦ rfl)
  | true =>
      have hroom : cacheKey (S.resolveServingName (s.reqs i).modelName) (s.reqs i).adapterPath ∈
          s.mgr.models ∨ s.mgr.models.keys.length < S.maxLoadedModels := hroom
      have hend := loadEnd_of_room (s.reqs i).op.forced hroom
      simp only [hend, if_true]
      have hcon : Told S popped (s.mgr.construct ((s.reqs i).key S) (s.reqs i).op.forced) :=
        h.told.congr (fun k ↦ Iff.rfl) rfl
      have htold := hcon.place s.mgr.fresh hpopped hname hroom
      exact of_idle (s := s) (Told.deliver htold) hidle (.deliver fun j _ ↦ rfl)

theorem step {x : State × Option String} {a : Act} (h : Inv S x) (hcat : FromCatalog S)
    (hg : Careful S x a) (hn : Flags.step S x.1 a = some s') : Inv S (s', record S x.1 a x.2) := by
  obtain ⟨s, popped⟩ := x
  cases a with
  | unload key =>
      cases hn
      exact h.unload hcat hg
  | cache a =>
      cases a with
      | call i op modelName adapterPath =>
          simp only [Flags.step, Models.step, Option.ite_none_right_eq_some,
            Option.some.injEq] at hn
          obtain ⟨hi, rfl⟩ := hn
          exact h.call hi
      | acquire i f =>
          simp only [Flags.step, Models.step, Option.ite_none_right_eq_some,
            Option.some.injEq] at hn
          obtain ⟨⟨-, hl⟩, rfl⟩ := hn
          exact h.locked hl hcat hg
      | construct i ok =>
          simp only [Flags.step, Models.step, Option.ite_none_right_eq_some,
            Option.some.injEq] at hn
          obtain ⟨hi, rfl⟩ := hn
          exact h.built hi hg

end Inv

/-- **The flags tell the truth.**  In every run in which the variants of a base leave the cache
together and no constructor raises after the last entry of its base has been popped: whenever a
cache key of a catalog base is resident its flag is up, and unless a forced load of the base is
constructing, the flag is up only then. -/
theorem loaded_iff_resident (S : Settings) (hcat : FromCatalog S) (x : State × Option String)
    (h : (flags S).Reach (Careful S) x) (b : String) (hb : b ∈ catalogNames) :
    ((∃ p, cacheKey b p ∈ x.1.mgr.models) → x.1.mgr.loaded b = true) ∧
      (¬Reloading S x.1 b →
        (x.1.mgr.loaded b = true ↔ ∃ p, cacheKey b p ∈ x.1.mgr.models)) := by
  have hinv : Inv S x := by
    apply h.invariant Inv.init
    intro s a s' hs hg hn
    obtain ⟨t, ht, rfl⟩ := Option.map_eq_some_iff.mp hn
    exact hs.step hcat hg ht
  have hup : (∃ p, cacheKey b p ∈ x.1.mgr.models) → x.1.mgr.loaded b = true := by
    rintro ⟨p, hp⟩
    have hflag := hinv.told.up _ hp
    rwa [baseOf_cacheKey hb] at hflag
  refine ⟨hup, fun hno ↦ ⟨?_, hup⟩⟩
  intro hflag
  rcases hinv.told.down b hflag with ⟨k, hk, hbase⟩ | hpop
  · obtain ⟨name, p, hname, rfl⟩ := hinv.told.keys k hk
    rw [baseOf_cacheKey hname] at hbase
    exact ⟨p, hbase ▸ hk⟩
  · exact absurd (hinv.reloading b hpop) hno

/-! ## Runs -/

/-- The catalog, with a cap and a budget. -/
def ofCatalog (cap : Nat) (budget : Option Nat) : Settings :=
  { maxLoadedModels := cap, budgetMb := budget
    configs := fun name ↦
      if name ∈ catalogNames then
        some ⟨name = "qwen2.5-vl-3b-instruct" ∨ name = "qwen2.5-vl-7b-instruct"⟩
      else none
    byHfId := fun id ↦
      if id = "Qwen/Qwen2.5-3B-Instruct" then some "qwen2.5-3b-instruct" else none }

theorem fromCatalog_ofCatalog (cap : Nat) (budget : Option Nat) :
    FromCatalog (ofCatalog cap budget) := by
  intro name
  by_cases h : name ∈ catalogNames
  · simp [ofCatalog, h]
  · simp [ofCatalog, h]

/-- All files are there, and the model takes `cost` MiB. -/
def found (cost : Nat) : Manager.Files := ⟨true, true, true, true, some cost⟩

/-- A whole call of `load_model` that constructs. -/
def load (i : ReqId) (force : Bool) (modelName : String) (adapterPath : Option String)
    (cost : Nat) (ok : Bool) : List Act :=
  [.cache (.call i (.loadModel force) modelName adapterPath), .cache (.acquire i (found cost)),
    .cache (.construct i ok)]

/-- Three models in a cache for two, the last of them loaded again, and one evicted. -/
def threeBases : List Act :=
  load 0 false "qwen2.5-0.5b-instruct" none 40 true ++
    load 1 false "Qwen/Qwen2.5-3B-Instruct" (some "/a.gguf") 40 true ++
    load 2 false "qwen2.5-coder-3b" none 40 true ++
    load 3 true "qwen2.5-coder-3b" none 40 true ++
    ([.cache (.call 4 .evict "qwen2.5-3b-instruct" (some "/a.gguf")),
      .cache (.acquire 4 (found 40))] : List Act)

/-- `loaded_iff_resident` at a run that evicts for the cap, reloads and evicts. -/
theorem loaded_iff_resident_threeBases :
    ∃ x, (flags (ofCatalog 2 (some 100))).Reach (Careful (ofCatalog 2 (some 100))) x ∧
      x.1.mgr.models.keys = ["qwen2.5-coder-3b"] ∧
      ((∃ p, cacheKey "qwen2.5-coder-3b" p ∈ x.1.mgr.models) →
        x.1.mgr.loaded "qwen2.5-coder-3b" = true) ∧
      (¬Reloading (ofCatalog 2 (some 100)) x.1 "qwen2.5-coder-3b" →
        (x.1.mgr.loaded "qwen2.5-coder-3b" = true ↔
          ∃ p, cacheKey "qwen2.5-coder-3b" p ∈ x.1.mgr.models)) := by
  obtain ⟨x, hx, hkeys⟩ := System.Reach.of_exec (S := flags (ofCatalog 2 (some 100)))
    (g := Careful (ofCatalog 2 (some 100))) (l := threeBases) (f := fun x ↦ x.1.mgr.models.keys)
    (b := ["qwen2.5-coder-3b"]) (by decide)
  exact ⟨x, hx, hkeys, loaded_iff_resident _ (fromCatalog_ofCatalog 2 _) x hx "qwen2.5-coder-3b"
    (by decide)⟩

/-- The base and a variant of it are loaded, and the variant is evicted. -/
def evictVariant : List Act :=
  load 0 false "qwen2.5-3b-instruct" none 40 true ++
    load 1 false "qwen2.5-3b-instruct" (some "/a.gguf") 40 true ++
    ([.cache (.call 2 .evict "qwen2.5-3b-instruct" (some "/a.gguf")),
      .cache (.acquire 2 (found 40))] : List Act)

/-- A reload that needs more memory than before pops its own entry, and then its constructor
raises. -/
def failedReload : List Act :=
  load 0 false "qwen2.5-3b-instruct" none 40 true ++
    load 1 false "qwen2.5-coder-3b" none 40 true ++
    load 2 true "qwen2.5-3b-instruct" none 70 false

/-- With no request left in progress, a flag may be down while the base is resident, and up while
nothing is. -/
theorem loaded_wrong :
    (∃ x, (flags (ofCatalog 2 (some 100))).Reachable x ∧ x.1.loadLock = none ∧
      x.1.mgr.models.keys = ["qwen2.5-3b-instruct"] ∧
      x.1.mgr.loaded "qwen2.5-3b-instruct" = false) ∧
    ∃ x, (flags (ofCatalog 2 (some 100))).Reachable x ∧ x.1.loadLock = none ∧
      x.1.mgr.models.keys = [] ∧ x.1.mgr.loaded "qwen2.5-3b-instruct" = true := by
  constructor
  · obtain ⟨x, hx, hr⟩ := System.Reach.of_exec (S := flags (ofCatalog 2 (some 100)))
      (g := fun _ _ ↦ True) (l := evictVariant) (f := fun x ↦ (x.1.loadLock, x.1.mgr.models.keys,
        x.1.mgr.loaded "qwen2.5-3b-instruct"))
      (b := (none, ["qwen2.5-3b-instruct"], false)) (by decide)
    simp only [Prod.mk.injEq] at hr
    exact ⟨x, hx, hr⟩
  · obtain ⟨x, hx, hr⟩ := System.Reach.of_exec (S := flags (ofCatalog 2 (some 100)))
      (g := fun _ _ ↦ True) (l := failedReload) (f := fun x ↦ (x.1.loadLock, x.1.mgr.models.keys,
        x.1.mgr.loaded "qwen2.5-3b-instruct"))
      (b := (none, [], true)) (by decide)
    simp only [Prod.mk.injEq] at hr
    exact ⟨x, hx, hr⟩

end Adapta.Models.Flags
