import Adapta.Models.Eviction
import Adapta.Models.Flags

/-!
# What a failed load leaves behind

`_make_room_for` writes the estimated cost of a load into `_costs` before it compares it with the
budget, and before the model is constructed.  If the load fails while its key is resident, the
table has the cost of a load that never came to be for an instance that is still there.

The system is the one of `Adapta.Models.Flags`, in which the size of a file may be another at
each load.  It gets a ledger of the costs that the resident instances were accounted with, and of
what the load in progress has found and removed.
-/

namespace Adapta.Models.Accounts

open Lib Room
open Eviction (total)
open Flags (passes)

variable {S : Settings} {m m' : Manager} {key k : String} {s s' : State} {i : ReqId} {l : Obj}

/-! ## The ledger -/

structure Ledger where
  /-- The cost accounted for the instance of a key when it was loaded. -/
  accounted : String → Nat
  /-- The cost that the load in progress accounts. -/
  cost : Nat
  /-- The resident keys it has found. -/
  found : List String
  /-- The cap and the budget have room for it beside all of them. -/
  room : Bool
  /-- It has left them and their order as they were. -/
  kept : Bool

def Ledger.init : Ledger :=
  { accounted := fun _ ↦ 0, cost := 0, found := [], room := true, kept := true }

/-- The cost that a load accounts: none without a budget. -/
def costOf (S : Settings) (costMb : Option Nat) : Nat :=
  match S.budgetMb with
  | none => 0
  | some _ => costMb.getD 0

def record (S : Settings) (s : State) : Flags.Act → Ledger → Ledger
  | .cache (.acquire i f), h =>
      { h with
        cost := costOf S f.costMb
        found := s.mgr.models.keys
        room := stay S s.mgr ((s.reqs i).key S) f.costMb = s.mgr.models.keys
        kept := (s.locked S i f).mgr.models.keys = s.mgr.models.keys }
  | .cache (.construct i ok), h =>
      { h with
        accounted :=
          if ok then Function.update h.accounted ((s.reqs i).key S) h.cost else h.accounted
        kept := h.kept && (s.built S i ok).mgr.models.keys = s.mgr.models.keys }
  | .cache (.call _ _ _ _), h | .unload _, h => h

/-- The model cache with its ledger. -/
def accounts (S : Settings) : System (State × Ledger) Flags.Act :=
  System.ghost ⟨State.init, Flags.step S⟩ .init (record S)

/-! ## Statement -/

/-- The step makes the request `i` raise `e`. -/
def Raises (s s' : State) (i : ReqId) (e : Manager.LoadError) : Prop :=
  (s.reqs i).pc ≠ .finished (.raised e) ∧ (s'.reqs i).pc = .finished (.raised e)

/-- The error is a `ModelTooLargeForMemory`, or it is or may be a `ValueError` or a
`FileNotFoundError`.  For the constructor this is what `ctor` says. -/
def Listed (ctor : Prop) : Manager.LoadError → Prop
  | .constructor => ctor
  | .nothingToEvict => False
  | .unknownModel | .modelNotFound | .adapterNotFound | .mmprojNotFound | .chatHandler | .stat
  | .tooLarge _ _ => True

/-- The cache after the request `i` has raised `e`. -/
structure Consistent (S : Settings) (ctor : ReqId → Prop) (x : State × Ledger) (i : ReqId)
    (e : Manager.LoadError) : Prop where
  costs : ∀ k ∈ x.1.mgr.models, x.1.mgr.costs k = some (x.2.accounted k)
  budget : ∀ b, S.budgetMb = some b → total x.1.mgr ≤ b
  added : ∀ k ∈ x.1.mgr.models, k ∈ x.2.found
  unchanged : Listed (ctor i) e → x.2.kept = true

/-- No load of a resident key that has passed the checks before finds a model that is over the
budget by itself.  If a constructor raises, its key is not resident or has been accounted with the
same cost, and if it raises a `ValueError` or a `FileNotFoundError`, all resident keys could stay
when room was made for it. -/
def Careful (S : Settings) (ctor : ReqId → Prop) (x : State × Ledger) : Flags.Act → Prop
  | .cache (.acquire i f) =>
      let q := x.1.reqs i
      q.op ≠ .evict → q.key S ∈ x.1.mgr.models →
        passes S x.1.mgr f q.op.forced (S.resolveServingName q.modelName) q.adapterPath = true →
        ∀ budget cost, S.budgetMb = some budget → f.costMb = some cost → cost ≤ budget
  | .cache (.construct i false) =>
      ((x.1.reqs i).key S ∈ x.1.mgr.models → x.2.cost = x.2.accounted ((x.1.reqs i).key S)) ∧
        (ctor i → x.2.room = true)
  | .cache (.construct _ true) | .cache (.call _ _ _ _) | .unload _ => True

/-! ## The books -/

/-- The recorded costs are those accounted, and within the budget; for the key of a load in
progress, they are the cost of this load. -/
structure Books (S : Settings) (h : Ledger) (loading : Option String) (m : Manager) : Prop where
  costs : ∀ k ∈ m.models, loading ≠ some k → m.costs k = some (h.accounted k)
  pending : ∀ k, loading = some k → m.costs k = some h.cost
  budget : ∀ b, S.budgetMb = some b →
    ((m.models.keys.filter (loading ≠ some ·)).map h.accounted).sum +
      (if loading.isSome then h.cost else 0) ≤ b

variable {h : Ledger} {loading : Option String}

theorem filter_loading (m : Manager) (key : String) :
    m.models.keys.filter (some key ≠ some ·) = m.models.keys.erase key := by
  rw [m.models.keys_nodup.erase_eq_filter]
  refine List.filter_congr fun k _ ↦ ?_
  rw [Bool.eq_iff_iff, decide_eq_true_eq, bne_iff_ne, ne_eq, Option.some.injEq]
  exact not_congr eq_comm

theorem filter_idle (l : List String) : l.filter (none ≠ some ·) = l :=
  List.filter_eq_self.mpr fun _ _ ↦ rfl

namespace Books

theorem congr (hb : Books S h loading m) (hm : m'.models = m.models) (hc : m'.costs = m.costs) :
    Books S h loading m' where
  costs k hk := hc ▸ hb.costs k (hm ▸ hk)
  pending k hk := hc ▸ hb.pending k hk
  budget b hb' := hm ▸ hb.budget b hb'

/-- A hit. -/
theorem touch (hb : Books S h loading m) (hl : m.models.lookup k = some l) :
    Books S h loading { m with models := m.models.insert k l } := by
  have hmem : k ∈ m.models := AList.lookup_isSome.mp (by simp [hl])
  have hperm : (m.models.insert k l).keys.Perm m.models.keys := by
    rw [AList.keys_insert]
    exact (List.perm_cons_erase (AList.mem_keys.mp hmem)).symm
  refine ⟨fun k' hk' ↦ hb.costs k' ?_, hb.pending, fun b hb' ↦ ?_⟩
  · exact AList.mem_keys.mpr (hperm.mem_iff.mp (AList.mem_keys.mp hk'))
  · rw [((hperm.filter _).map _).sum_eq]
    exact hb.budget b hb'

theorem erase (hb : Books S h loading m) (hm : m'.models = m.models.erase k)
    (hc : m'.costs = m.costs) : Books S h loading m' := by
  have hsub : m'.models.keys.Sublist m.models.keys := by
    rw [hm, AList.keys_erase]
    exact List.erase_sublist
  refine ⟨fun k' hk' ↦ ?_, fun k' hk' ↦ hc ▸ hb.pending k' hk', fun b hb' ↦ ?_⟩
  · rw [hc]
    exact hb.costs k' (AList.mem_keys.mpr (hsub.subset (AList.mem_keys.mp hk')))
  · have hsum := ((hsub.filter (loading ≠ some ·)).map h.accounted).sum_le_sum
      fun _ _ ↦ Nat.zero_le _
    exact (Nat.add_le_add_right hsum _).trans (hb.budget b hb')

theorem unloadModel (hb : Books S h loading m) : Books S h loading (m.unloadModel S k) := by
  rw [Manager.unloadModel]
  split
  · exact hb.erase rfl rfl
  · exact hb

/-- The sum of the recorded costs, where no load is in progress. -/
theorem total_eq (hb : Books S h none m) : total m = (m.models.keys.map h.accounted).sum := by
  refine congrArg List.sum (List.map_congr_left fun k hk ↦ ?_)
  rw [hb.costs k (AList.mem_keys.mpr hk) (by simp), Option.getD_some]

theorem total_le (hb : Books S h none m) {b : Nat} (hb' : S.budgetMb = some b) :
    total m ≤ b := by
  have hle := hb.budget b hb'
  rw [hb.total_eq]
  simpa using hle

/-- A new instance is resident, and accounted. -/
theorem place (hb : Books S h (some key) m) (name : String) (l : Obj) :
    Books S { h with accounted := Function.update h.accounted key h.cost } none
      (m.place name key l) := by
  refine ⟨fun k hk _ ↦ ?_, by simp, fun b hb' ↦ ?_⟩
  · show m.costs k = some (Function.update h.accounted key h.cost k)
    by_cases hne : k = key
    · rw [hne, Function.update_self]
      exact hb.pending key rfl
    · rw [Function.update_of_ne hne]
      refine hb.costs k ((AList.mem_insert _).mp hk |>.resolve_left hne) ?_
      simpa using Ne.symm hne
  · have hle := hb.budget b hb'
    have hsum : ((m.models.keys.erase key).map (Function.update h.accounted key h.cost)).sum =
        ((m.models.keys.erase key).map h.accounted).sum := by
      refine congrArg List.sum (List.map_congr_left fun k hk ↦ ?_)
      exact Function.update_of_ne (m.models.keys_nodup.mem_erase_iff.mp hk).1 _ _
    have hkeys : (m.place name key l).models.keys = key :: m.models.keys.erase key :=
      AList.keys_insert ..
    rw [filter_loading, Option.isSome_some, if_pos rfl] at hle
    rw [filter_idle, hkeys]
    show Function.update h.accounted key h.cost key +
      ((m.models.keys.erase key).map (Function.update h.accounted key h.cost)).sum + 0 ≤ b
    rw [Function.update_self, hsum, Nat.add_zero, Nat.add_comm]
    exact hle

/-- A load ends without a new instance. -/
theorem abandon (hb : Books S h (some key) m) (hcost : key ∈ m.models → h.cost = h.accounted key) :
    Books S h none m := by
  refine ⟨fun k hk _ ↦ ?_, by simp, fun b hb' ↦ ?_⟩
  · by_cases hne : k = key
    · subst hne
      rw [hb.pending k rfl, hcost hk]
    · exact hb.costs k hk (by simpa using Ne.symm hne)
  · have hle := hb.budget b hb'
    rw [filter_loading, Option.isSome_some, if_pos rfl] at hle
    rw [filter_idle]
    show (m.models.keys.map h.accounted).sum + 0 ≤ b
    rw [Nat.add_zero]
    refine le_trans ?_ hle
    by_cases hk : key ∈ m.models
    · have hperm := List.perm_cons_erase (AList.mem_keys.mp hk)
      rw [(hperm.map _).sum_eq, List.map_cons, List.sum_cons, hcost hk, Nat.add_comm]
    · rw [List.erase_of_not_mem fun hmem ↦ hk (AList.mem_keys.mpr hmem)]
      exact Nat.le_add_right _ _

/-- What the costs that are right say of the load in progress. -/
theorem cost_eq (hb : Books S h (some key) m)
    (hcosts : ∀ k ∈ m.models, m.costs k = some (h.accounted k)) (hk : key ∈ m.models) :
    h.cost = h.accounted key := by
  have hp := hb.pending key rfl
  rw [hcosts key hk] at hp
  exact (Option.some.inj hp).symm

end Books

/-! ## Making room -/

section Room

variable {costMb : Option Nat}

theorem costs_makeRoomLoop {cost budget n : Nat} :
    (Manager.makeRoomLoop S key cost budget n m).costs = m.costs :=
  Manager.makeRoomLoop_preserves (P := fun m' ↦ m'.costs = m.costs) (fun _ _ _ h ↦ h)
    (fun _ _ h ↦ h) _ _ rfl

theorem costs_makeRoomFor (haff : affordable S costMb = true) :
    (m.makeRoomFor S key costMb).1.costs =
      Function.update m.costs key (some (costOf S costMb)) := by
  simp only [Manager.makeRoomFor, costOf]
  rw [affordable] at haff
  cases hb : S.budgetMb with
  | none =>
      dsimp only
      split
      · rfl
      · exact costs_evictLruIfNeeded
  | some budget =>
      cases costMb with
      | none =>
          rw [hb] at haff
          cases haff
      | some cost =>
          have hle : ¬ budget < cost := by
            rw [hb] at haff
            simpa using haff
          dsimp only
          rw [if_neg hle]
          split
          · exact costs_makeRoomLoop
          · split
            · exact costs_makeRoomLoop.trans costs_evictLruIfNeeded
            · exact costs_evictLruIfNeeded

/-- If it raises nevertheless, the cap is zero, and nothing stays. -/
theorem makeRoomFor_raises {e : Manager.LoadError} (haff : affordable S costMb = true)
    (he : (m.makeRoomFor S key costMb).2 = some e) :
    e = .nothingToEvict ∧ (m.makeRoomFor S key costMb).1.models.keys = [] := by
  have hevict : ∀ {m : Manager}, ¬ (m.evictLruIfNeeded S).2 = true → S.maxLoadedModels = 0 :=
    fun h ↦ Nat.eq_zero_of_not_pos fun hcap ↦ h (Manager.evictLruIfNeeded_ok.mpr hcap)
  obtain ⟨hkeys, -, hmem⟩ := makeRoomFor_spec m key haff
  have hkey : key ∉ m.models := fun h ↦ by rw [hmem h] at he; cases he
  have hcap : e = .nothingToEvict ∧ S.maxLoadedModels = 0 := by
    simp only [Manager.makeRoomFor] at he
    rw [affordable] at haff
    cases hb : S.budgetMb with
    | none =>
        simp only [hb, if_neg hkey] at he
        split at he
        · cases he
        · next hno => exact ⟨(Option.some.inj he).symm, hevict hno⟩
    | some budget =>
        cases costMb with
        | none =>
            rw [hb] at haff
            cases haff
        | some cost =>
            have hle : ¬ budget < cost := by
              rw [hb] at haff
              simpa using haff
            simp only [hb, if_neg hle, if_neg hkey] at he
            split at he
            · cases he
            · next hno => exact ⟨(Option.some.inj he).symm, hevict hno⟩
  refine ⟨hcap.1, ?_⟩
  rw [hkeys, stay, capRoom, if_neg hkey, hcap.2, Nat.min_zero, Nat.findGreatest_zero,
    List.take_zero]

/-- What is left fits into the budget together with the new model. -/
theorem used_makeRoomFor (haff : affordable S costMb = true) {b : Nat} (hb : S.budgetMb = some b) :
    (m.makeRoomFor S key costMb).1.used key + costOf S costMb ≤ b := by
  have hcosts : (m.makeRoomFor S key costMb).1.costs = _ := costs_makeRoomFor haff
  have hkeys := (makeRoomFor_spec m key haff).1
  rw [affordable, hb, Option.all_some] at haff
  cases costMb with
  | none => cases haff
  | some cost =>
      have hfits : withinBudget S m key (some cost) (Nat.findGreatest
          (fun n ↦ withinBudget S m key (some cost) n = true) (capRoom S m key)) = true := by
        refine Nat.findGreatest_spec (P := fun n ↦ withinBudget S m key (some cost) n = true)
          (Nat.zero_le _) ?_
        simpa [withinBudget, hb] using haff
      have hcost : costOf S (some cost) = cost := by rw [costOf, hb, Option.getD_some]
      rw [Manager.used, hcosts, hkeys, hcost]
      exact (withinBudget_iff m key cost _ _ hb).mp hfits

/-- Room has been made for a load. -/
theorem Books.makeRoomFor (hb : Books S h none m) (haff : affordable S costMb = true)
    {h' : Ledger} (hacc : h'.accounted = h.accounted) (hcost : h'.cost = costOf S costMb) :
    Books S h' (some key) (m.makeRoomFor S key costMb).1 := by
  have hsub := (makeRoomFor_spec m key haff).2.1.subset
  have hcosts : (m.makeRoomFor S key costMb).1.costs = _ := costs_makeRoomFor haff
  have hold : ∀ k ∈ (m.makeRoomFor S key costMb).1.models, k ≠ key →
      (m.makeRoomFor S key costMb).1.costs k = some (h'.accounted k) := by
    intro k hk hne
    rw [hcosts, Function.update_of_ne hne, hacc]
    exact hb.costs k (hsub k hk) (by simp)
  refine ⟨fun k hk hne ↦ ?_, fun k hk ↦ ?_, fun b hb' ↦ ?_⟩
  · exact hold k hk fun heq ↦ hne (congrArg some heq.symm)
  · obtain rfl := Option.some.inj hk
    rw [hcosts, Function.update_self, hcost]
  · have hsum : (((m.makeRoomFor S key costMb).1.models.keys.filter (some key ≠ some ·)).map
        h'.accounted).sum = (m.makeRoomFor S key costMb).1.used key := by
      have hfilter : (m.makeRoomFor S key costMb).1.models.keys.filter (some key ≠ some ·) =
          (m.makeRoomFor S key costMb).1.models.keys.filter (· ≠ key) :=
        List.filter_congr fun k _ ↦ by simp [eq_comm]
      rw [hfilter, Manager.used]
      refine congrArg List.sum (List.map_congr_left fun k hk ↦ ?_)
      obtain ⟨hk, hne⟩ := List.mem_filter.mp hk
      rw [hold k (AList.mem_keys.mpr hk) (by simpa using hne), Option.getD_some]
    rw [hsum, Option.isSome_some, if_pos rfl, hcost]
    exact used_makeRoomFor haff hb'

/-- How a load begins; `checks` says that it passes the checks before the estimate. -/
inductive Begins (S : Settings) (m : Manager) (key : String) (costMb : Option Nat)
    (checks : Bool) : Manager × Manager.Begun → Prop
  | hit (l : Obj) : m.models.lookup key = some l → checks = false →
      Begins S m key costMb checks ({ m with models := m.models.insert key l }, .hit l)
  | refused (e : Manager.LoadError) : checks = false ∨ costMb = none →
      Begins S m key costMb checks (m, .raised e)
  | tooLarge (budget cost : Nat) : checks = true → S.budgetMb = some budget →
      costMb = some cost → budget < cost →
      Begins S m key costMb checks ({ m with costs := Function.update m.costs key (some cost) },
        .raised (.tooLarge cost budget))
  | emptied (m' : Manager) : affordable S costMb = true → m'.models.keys = [] →
      Begins S m key costMb checks (m', .raised .nothingToEvict)
  | build : affordable S costMb = true →
      Begins S m key costMb checks ((m.makeRoomFor S key costMb).1, .build)

theorem begins_makeRoomFor (S : Settings) (m : Manager) (key : String) (costMb : Option Nat) :
    Begins S m key costMb true ((m.makeRoomFor S key costMb).1,
      (m.makeRoomFor S key costMb).2.elim .build .raised) := by
  cases haff : affordable S costMb with
  | true =>
      cases hr : (m.makeRoomFor S key costMb).2 with
      | none => exact .build haff
      | some e =>
          obtain ⟨rfl, hkeys⟩ := makeRoomFor_raises haff hr
          exact .emptied _ haff hkeys
  | false =>
      cases hb : S.budgetMb with
      | none =>
          rw [affordable, hb] at haff
          cases haff
      | some budget =>
          cases costMb with
          | none =>
              have hroom : m.makeRoomFor S key none = (m, some .stat) := by
                simp only [Manager.makeRoomFor, hb]
              rw [hroom]
              exact .refused _ (.inr rfl)
          | some cost =>
              have hlt : budget < cost := by
                rw [affordable, hb] at haff
                simpa using haff
              have hroom : m.makeRoomFor S key (some cost) =
                  ({ m with costs := Function.update m.costs key (some cost) },
                    some (.tooLarge cost budget)) := by
                simp only [Manager.makeRoomFor, hb, if_pos hlt]
              rw [hroom]
              exact .tooLarge budget cost rfl hb rfl hlt

theorem begins_loadBegin (S : Settings) (m : Manager) (f : Manager.Files) (force : Bool)
    (name : String) (adapter : Option String) :
    Begins S m (cacheKey name adapter) f.costMb (passes S m f force name adapter)
      (m.loadBegin S f force name adapter) := by
  by_cases hmiss : cacheKey name adapter ∉ m.models ∨ force = true
  · have hfirst : (decide (cacheKey name adapter ∉ m.models) || force) = true := by
      simpa using hmiss
    have hpasses : passes S m f force name adapter = passes S m f true name adapter := by
      rw [passes, passes, hfirst, Bool.or_true]
    rw [Flags.loadBegin_miss hmiss, hpasses]
    rcases Flags.loadBegin_passes S m f name adapter with ⟨⟨e, hraise⟩, hno⟩ | ⟨hroom, hyes⟩
    · rw [hraise]
      exact .refused e (.inl hno)
    · rw [hroom, hyes]
      exact begins_makeRoomFor S m _ f.costMb
  · rw [not_or, not_not, Bool.not_eq_true] at hmiss
    obtain ⟨hmem, rfl⟩ := hmiss
    obtain ⟨l, hl⟩ := Option.isSome_iff_exists.mp (AList.lookup_isSome.mpr hmem)
    rw [Flags.loadBegin_hit hl]
    refine .hit l hl ?_
    rw [passes, decide_eq_false (not_not.mpr hmem)]
    rfl

end Room

/-! ## Steps -/

/-- A step changes the tables only by a use of a resident key, if at all. -/
def Touches (m m' : Manager) : Prop :=
  m'.costs = m.costs ∧
    (m'.models = m.models ∨ ∃ k l, m.models.lookup k = some l ∧ m'.models = m.models.insert k l)

theorem Books.touches (hb : Books S h loading m) (ht : Touches m m') : Books S h loading m' := by
  obtain ⟨hc, hm | ⟨k, l, hl, hm⟩⟩ := ht
  · exact hb.congr hm hc
  · exact (hb.touch hl).congr hm hc

theorem Touches.mem (ht : Touches m m') (hk : k ∈ m'.models) : k ∈ m.models := by
  obtain ⟨-, hm | ⟨k', l, hl, hm⟩⟩ := ht
  · exact hm ▸ hk
  · rcases (AList.mem_insert _).mp (hm ▸ hk) with rfl | hk
    · exact AList.lookup_isSome.mp (by rw [hl]; rfl)
    · exact hk

/-- The request of a step was on its way, so the step is the first to say how it ends. -/
theorem forall_raises {P : ReqId → Manager.LoadError → Prop}
    (hreqs : ∀ j, j ≠ i → s'.reqs j = s.reqs j) (hpc : ∀ o, (s.reqs i).pc ≠ .finished o) :
    (∀ j e, Raises s s' j e → P j e) ↔ ∀ e, (s'.reqs i).pc = .finished (.raised e) → P i e := by
  constructor
  · exact fun hall e he ↦ hall i e ⟨hpc _, he⟩
  · rintro hall j e ⟨hno, he⟩
    by_cases hj : j = i
    · subst hj
      exact hall e he
    · rw [hreqs j hj] at he
      exact absurd he hno

/-- The request has ended, and not with an error. -/
structure Served (s : State) (i : ReqId) (s' : State) : Prop extends Flags.Ends s i s' where
  pc_ne : ∀ e, (s'.reqs i).pc ≠ .finished (.raised e)

theorem Served.deliver {t : State} (hreqs : ∀ j, j ≠ i → t.reqs j = s.reqs j) :
    Served s i (t.deliver S i l) := by
  refine ⟨.deliver hreqs, fun e ↦ ?_⟩
  rw [State.deliver]
  split
  · rw [State.setPc_pc]
    simp
  · rw [State.setPc_pc]
    simp

/-- A request starts, and may find its key resident. -/
theorem call_served (q : Req) : Touches s.mgr (s.call S i q).mgr ∧
    (s.call S i q).loadLock = s.loadLock ∧ Served s i (s.call S i q) := by
  let s₁ : State := { s with reqs := Function.update s.reqs i { q with pc := .acquiring } }
  have hreqs : ∀ j, j ≠ i → s₁.reqs j = s.reqs j := fun j hj ↦ Function.update_of_ne hj _ _
  have hfast : ∀ {l}, s.mgr.models.lookup (q.key S) = some l →
      let t := State.deliver S { s₁ with mgr.models := s.mgr.models.insert (q.key S) l } i l
      Touches s.mgr t.mgr ∧ t.loadLock = s.loadLock ∧ Served s i t := by
    intro l hl t
    obtain ⟨hm, hc, -, hlock⟩ := State.deliver_mgr (S := S) (i := i) (l := l)
      (s := { s₁ with mgr.models := s.mgr.models.insert (q.key S) l })
    exact ⟨⟨hc, .inr ⟨_, l, hl, hm⟩⟩, hlock, .deliver hreqs⟩
  simp only [State.call]
  split
  · next hl => exact hfast hl
  · next hl => exact hfast hl
  · refine ⟨⟨rfl, .inl rfl⟩, rfl, ⟨hreqs, ?_⟩, ?_⟩
    · simp
    · simp

theorem locked_evict {f : Manager.Files} (hop : (s.reqs i).op = .evict) :
    s.locked S i f = { s with mgr := s.mgr.unloadModel S ((s.reqs i).key S) }.setPc i
      (.finished (.evicted (decide ((s.reqs i).key S ∈ s.mgr.models)))) := by
  rw [State.locked, hop]

/-- What a load has done when it has got the lock. -/
structure Locked (s : State) (i : ReqId) (r : Manager × Manager.Begun) (s' : State) : Prop where
  models : s'.mgr.models = r.1.models
  costs : s'.mgr.costs = r.1.costs
  reqs : ∀ j, j ≠ i → s'.reqs j = s.reqs j
  key : (s'.reqs i).key S = (s.reqs i).key S
  lock : s'.loadLock = if r.2 = .build then some i else s.loadLock
  building : (s'.reqs i).pc = .building ↔ r.2 = .build
  raised : ∀ e, (s'.reqs i).pc = .finished (.raised e) ↔ r.2 = .raised e

theorem locked_load {f : Manager.Files} (hop : (s.reqs i).op ≠ .evict) :
    Locked (S := S) s i (s.mgr.loadBegin S f (s.reqs i).op.forced
      (S.resolveServingName (s.reqs i).modelName) (s.reqs i).adapterPath) (s.locked S i f) := by
  generalize hr : s.mgr.loadBegin S f (s.reqs i).op.forced
    (S.resolveServingName (s.reqs i).modelName) (s.reqs i).adapterPath = r
  obtain ⟨m, begun⟩ := r
  rw [State.locked]
  dsimp only
  split
  · next heq => exact absurd heq hop
  · rw [hr]
    cases begun with
    | hit l =>
        obtain ⟨hm, hc, -, hlock⟩ := State.deliver_mgr (S := S) (i := i) (l := l)
          (s := { s with mgr := m })
        have hserved : Served s i (State.deliver S { s with mgr := m } i l) :=
          .deliver fun _ _ ↦ rfl
        have hkey := (Eviction.deliver_reqs (S := S) (i := i) (l := l)
          (s := { s with mgr := m })).2.2.1
        refine ⟨hm, hc, hserved.reqs, hkey, hlock, ?_, fun e ↦ ?_⟩
        · exact iff_of_false hserved.pc (by simp)
        · exact iff_of_false (hserved.pc_ne e) (by simp)
    | build =>
        refine ⟨rfl, rfl, fun j hj ↦ State.setPc_reqs_of_ne hj, ?_, rfl, ?_, fun e ↦ ?_⟩
        · simp [State.setPc, Req.key]
        · simp [State.setPc]
        · simp [State.setPc]
    | raised e =>
        refine ⟨rfl, rfl, fun j hj ↦ State.setPc_reqs_of_ne hj, ?_, rfl, ?_, fun e ↦ ?_⟩
        · simp [State.setPc, Req.key]
        · simp [State.setPc]
        · simp [State.setPc]

section Acquire

variable {f : Manager.Files} {ctor : ReqId → Prop}

/-- The books of a ledger do not depend on the load that is not in progress. -/
theorem Books.acquired (hb : Books S h none m) (cost : Nat) (found : List String)
    (room kept : Bool) :
    Books S { h with cost := cost, found := found, room := room, kept := kept } none m :=
  ⟨hb.costs, fun _ hk ↦ (by cases hk), hb.budget⟩

theorem consistent_of_books {x : State × Ledger} {e : Manager.LoadError}
    (hb : Books S x.2 none x.1.mgr) (hadded : ∀ k ∈ x.1.mgr.models, k ∈ x.2.found)
    (hkept : Listed (ctor i) e → x.2.kept = true) : Consistent S ctor x i e where
  costs k hk := hb.costs k hk (by simp)
  budget _ hb' := hb.total_le hb'
  added := hadded
  unchanged := hkept

/-- The costs of keys that are not resident do not matter. -/
theorem Books.update_of_not_mem (hb : Books S h none m) (hkey : key ∉ m.models)
    (c : Option Nat) : Books S h none { m with costs := Function.update m.costs key c } := by
  refine ⟨fun k hk hidle ↦ ?_, fun _ hk ↦ (by cases hk), hb.budget⟩
  have hne : k ≠ key := by
    rintro rfl
    exact hkey hk
  exact (Function.update_of_ne hne _ _).trans (hb.costs k hk hidle)

theorem books_of_nil (hm : m.models.keys = []) : Books S h none m := by
  refine ⟨fun k hk ↦ ?_, fun _ hk ↦ (by cases hk), fun b _ ↦ ?_⟩
  · rw [AList.mem_keys, hm] at hk
    cases hk
  · rw [hm]
    exact Nat.zero_le _

/-- A cost over the budget is recorded for a resident key. -/
theorem not_books_of_lt {b cost : Nat} (hb : S.budgetMb = some b) (hlt : b < cost)
    (hk : key ∈ m.models) (hc : m.costs key = some cost) :
    ¬ ∀ b, S.budgetMb = some b → total m ≤ b := by
  intro hall
  have hle := hall b hb
  have hmem : cost ∈ m.models.keys.map fun k ↦ (m.costs k).getD 0 :=
    List.mem_map.mpr ⟨key, AList.mem_keys.mp hk, by rw [hc, Option.getD_some]⟩
  have hsum : cost ≤ total m := List.single_le_sum (fun _ _ ↦ Nat.zero_le _) _ hmem
  omega

/-- A load that raises when it has got the lock leaves the cache consistent, unless it measures a
resident model and finds it too large. -/
theorem acquire_iff (hb : Books S h none s.mgr) (hpc : (s.reqs i).pc = .acquiring)
    (hop : (s.reqs i).op ≠ .evict) :
    (∀ j e, Raises s (s.locked S i f) j e → Consistent S ctor
        (s.locked S i f, record S s (.cache (.acquire i f)) h) j e) ↔
      Careful S ctor (s, h) (.cache (.acquire i f)) := by
  have hr := locked_load (S := S) (s := s) (i := i) (f := f) hop
  have hbegins := begins_loadBegin S s.mgr f (s.reqs i).op.forced
    (S.resolveServingName (s.reqs i).modelName) (s.reqs i).adapterPath
  rw [forall_raises (P := fun j e ↦ Consistent S ctor
    (s.locked S i f, record S s (.cache (.acquire i f)) h) j e) hr.reqs (by simp [hpc])]
  simp only [hr.raised]
  -- the load has removed nothing
  have hsame : ∀ {e}, (s.locked S i f).mgr.models = s.mgr.models →
      Books S h none (s.locked S i f).mgr → Consistent S ctor
        (s.locked S i f, record S s (.cache (.acquire i f)) h) i e := by
    intro e hm hbooks
    refine consistent_of_books (hbooks.acquired _ _ _ _) ?_ fun _ ↦ ?_
    · intro k hk
      exact AList.mem_keys.mp (hm ▸ hk)
    · show decide _ = true
      rw [hm, decide_eq_true rfl]
  have hm := hr.models
  have hc := hr.costs
  generalize s.mgr.loadBegin S f (s.reqs i).op.forced
    (S.resolveServingName (s.reqs i).modelName) (s.reqs i).adapterPath = r at hbegins hm hc ⊢
  have hcareful : (affordable S f.costMb = true ∨ f.costMb = none ∨
      passes S s.mgr f (s.reqs i).op.forced (S.resolveServingName (s.reqs i).modelName)
        (s.reqs i).adapterPath = false) → Careful S ctor (s, h) (.cache (.acquire i f)) := by
    rintro hno - - hpasses budget cost hbudget hcost
    rcases hno with haff | hnone | hfalse
    · rw [affordable, hbudget, hcost] at haff
      simpa using haff
    · rw [hnone] at hcost
      cases hcost
    · rw [hfalse] at hpasses
      cases hpasses
  cases hbegins with
  | hit l hl hno => exact iff_of_true (fun e he ↦ by cases he) (hcareful (.inr (.inr hno)))
  | build haff => exact iff_of_true (fun e he ↦ by cases he) (hcareful (.inl haff))
  | refused e hno =>
      refine iff_of_true (fun e' _ ↦ hsame hm (hb.congr hm hc)) (hcareful ?_)
      exact hno.elim (fun h ↦ .inr (.inr h)) fun h ↦ .inr (.inl h)
  | emptied m' haff hkeys =>
      refine iff_of_true (fun e he ↦ ?_) (hcareful (.inl haff))
      have hnil : (s.locked S i f).mgr.models.keys = [] := (congrArg AList.keys hm).trans hkeys
      cases he
      refine consistent_of_books (books_of_nil hnil) (fun k hk ↦ ?_) False.elim
      rw [AList.mem_keys, hnil] at hk
      cases hk
  | tooLarge budget cost hyes hbudget hcost hlt =>
      by_cases hk : (s.reqs i).key S ∈ s.mgr.models
      · refine iff_of_false (fun hall ↦ ?_) fun hcare ↦ ?_
        · refine not_books_of_lt (m := (s.locked S i f).mgr) hbudget hlt (hm ▸ hk) ?_
            (hall _ rfl).budget
          rw [hc]
          exact Function.update_self ..
        · exact absurd hlt (Nat.not_lt.mpr (hcare hop hk hyes budget cost hbudget hcost))
      · refine iff_of_true (fun e _ ↦ hsame hm ?_) fun _ hk' ↦ absurd hk' hk
        exact (hb.update_of_not_mem hk _).congr hm hc

/-- A constructor that raises leaves the cache consistent if what it has been accounted with is
right. -/
theorem construct_false_iff (hb : Books S h (some ((s.reqs i).key S)) s.mgr)
    (hfound : ∀ k ∈ s.mgr.models, k ∈ h.found) (hroom : h.kept = h.room)
    (hpc : (s.reqs i).pc = .building) :
    (∀ j e, Raises s (s.built S i false) j e → Consistent S ctor
        (s.built S i false, record S s (.cache (.construct i false)) h) j e) ↔
      Careful S ctor (s, h) (.cache (.construct i false)) := by
  have hbuilt : s.built S i false =
      { s with loadLock := none }.setPc i (.finished (.raised .constructor)) := rfl
  have hmgr : (s.built S i false).mgr = s.mgr := rfl
  have hkept : (record S s (.cache (.construct i false)) h).kept = h.room := by
    show (h.kept && decide (s.mgr.models.keys = s.mgr.models.keys)) = h.room
    rw [decide_eq_true rfl, Bool.and_true, hroom]
  have hreqs : ∀ j, j ≠ i → (s.built S i false).reqs j = s.reqs j :=
    fun j hj ↦ State.setPc_reqs_of_ne hj
  rw [forall_raises (P := fun j e ↦ Consistent S ctor
    (s.built S i false, record S s (.cache (.construct i false)) h) j e) hreqs (by simp [hpc])]
  constructor
  · intro hall
    have hcons := hall .constructor (by rw [hbuilt, State.setPc_pc])
    exact ⟨fun hk ↦ hb.cost_eq hcons.costs hk, fun hctor ↦ hkept ▸ hcons.unchanged hctor⟩
  · rintro ⟨hcost, hctor⟩ e he
    rw [hbuilt, State.setPc_pc] at he
    cases he
    have hdone := hb.abandon hcost
    have hbooks : Books S (record S s (.cache (.construct i false)) h) none
        (s.built S i false).mgr := ⟨hdone.costs, hdone.pending, hdone.budget⟩
    exact consistent_of_books hbooks hfound fun hlisted ↦ hkept.trans (hctor hlisted)

/-- The accounts of keys that are not resident do not matter. -/
theorem Books.account_of_not_mem (hb : Books S h none m) (hkey : key ∉ m.models) (c : Nat) :
    Books S { h with accounted := Function.update h.accounted key c } none m := by
  have hne : ∀ k ∈ m.models, Function.update h.accounted key c k = h.accounted k := by
    intro k hk
    refine Function.update_of_ne ?_ _ _
    rintro rfl
    exact hkey hk
  refine ⟨fun k hk hidle ↦ ?_, fun _ hk ↦ (by cases hk), fun b hb' ↦ ?_⟩
  · exact (hb.costs k hk hidle).trans (congrArg some (hne k hk).symm)
  · have hle := hb.budget b hb'
    rw [filter_idle] at hle ⊢
    show (m.models.keys.map (Function.update h.accounted key c)).sum + 0 ≤ b
    rw [List.map_congr_left fun k hk ↦ hne k (AList.mem_keys.mpr hk)]
    exact hle

/-- A construction that returns. -/
structure Built (S : Settings) (h : Ledger) (s : State) (i : ReqId) (s' : State) : Prop
    extends Flags.Ends s i s' where
  books : Books S (record S s (.cache (.construct i true)) h) none s'.mgr
  lock : s'.loadLock = none
  raised : ∀ e, (s'.reqs i).pc = .finished (.raised e) →
    e = .nothingToEvict ∧ ∀ k ∈ s'.mgr.models, k ∈ s.mgr.models

theorem built_true (hb : Books S h (some ((s.reqs i).key S)) s.mgr) :
    Built S h s i (s.built S i true) := by
  obtain ⟨m', hm', hcases⟩ := Manager.loadEnd_cases S s.mgr (s.reqs i).op.forced
    (S.resolveServingName (s.reqs i).modelName) (s.reqs i).adapterPath
  have hbooks : Books S h (some ((s.reqs i).key S)) m' :=
    hm' _ (fun _ _ _ hb ↦ hb.erase rfl rfl) (hb.congr rfl rfl)
  have hsub : ∀ k ∈ m'.models, k ∈ s.mgr.models :=
    hm' (fun m' ↦ ∀ k ∈ m'.models, k ∈ s.mgr.models)
      (fun _ _ _ hsub k hk ↦ hsub k (AList.mem_erase.mp hk).2) fun _ hk ↦ hk
  have hledger : ∀ {mgr}, Books S
      { h with accounted := Function.update h.accounted ((s.reqs i).key S) h.cost } none mgr →
      Books S (record S s (.cache (.construct i true)) h) none mgr :=
    fun hb ↦ ⟨hb.costs, hb.pending, hb.budget⟩
  rw [State.built]
  rcases hcases with hend | ⟨-, hkey, hend⟩
  · simp only [hend, if_true]
    let t : State :=
      { s with
        mgr := m'.place (S.resolveServingName (s.reqs i).modelName) ((s.reqs i).key S) s.mgr.fresh
        loadLock := none }
    obtain ⟨hm, hc, -, hlock⟩ := State.deliver_mgr (S := S) (i := i) (l := s.mgr.fresh) (s := t)
    have hserved : Served s i (State.deliver S t i s.mgr.fresh) := .deliver fun _ _ ↦ rfl
    refine ⟨hserved.toEnds, (hledger (hbooks.place _ _)).congr hm hc, hlock, ?_⟩
    exact fun e he ↦ absurd he (hserved.pc_ne e)
  · simp only [hend, if_true]
    refine ⟨.finish fun _ _ ↦ rfl, ?_, rfl, fun e he ↦ ?_⟩
    · have hkey' : (s.reqs i).key S ∉ m'.models := fun hk ↦ hkey (hsub _ hk)
      have habandon := hbooks.abandon fun hk ↦ absurd hk hkey'
      exact (hledger (habandon.account_of_not_mem hkey' h.cost)).congr rfl rfl
    · rw [State.setPc_pc] at he
      cases he
      exact ⟨rfl, hsub⟩

end Acquire

/-! ## Runs -/

/-- The books are right, and those of a load in progress. -/
structure Inv (S : Settings) (x : State × Ledger) : Prop where
  idle : x.1.loadLock = none → Books S x.2 none x.1.mgr
  building : ∀ i, (x.1.reqs i).pc = .building → x.1.loadLock = some i ∧
    Books S x.2 (some ((x.1.reqs i).key S)) x.1.mgr ∧ (∀ k ∈ x.1.mgr.models, k ∈ x.2.found) ∧
      x.2.kept = x.2.room

namespace Inv

protected theorem init : Inv S (State.init, .init) where
  idle _ := books_of_nil rfl
  building i hi := by cases hi

/-- Where no request holds `_load_lock`, none is constructing. -/
theorem not_building {x : State × Ledger} (hx : Inv S x) (hl : x.1.loadLock = none) (j : ReqId) :
    (x.1.reqs j).pc ≠ .building := by
  intro hj
  rw [(hx.building j hj).1] at hl
  cases hl

/-- A request ends, and none is constructing then. -/
theorem of_idle (hbooks : Books S h none s'.mgr) (hs : ∀ j, j ≠ i → (s.reqs j).pc ≠ .building)
    (he : Flags.Ends s i s') : Inv S (s', h) where
  idle _ := hbooks
  building j hj := by
    have hne : j ≠ i := fun heq ↦ he.pc (heq ▸ hj)
    rw [he.reqs j hne] at hj
    exact absurd hj (hs j hne)

/-- A request ends that has used a key at most. -/
theorem of_touches (hx : Inv S (s, h)) (ht : Touches s.mgr s'.mgr)
    (hl : s'.loadLock = s.loadLock) (he : Flags.Ends s i s') : Inv S (s', h) where
  idle hidle := (hx.idle (hl.symm.trans hidle)).touches ht
  building j hj := by
    have hne : j ≠ i := fun heq ↦ he.pc (heq ▸ hj)
    rw [he.reqs j hne] at hj ⊢
    obtain ⟨hlock, hbooks, hfound, hroom⟩ := hx.building j hj
    exact ⟨hl.trans hlock, hbooks.touches ht, fun k hk ↦ hfound k (ht.mem hk), hroom⟩

theorem unload (hx : Inv S (s, h)) :
    Inv S ({ s with mgr := s.mgr.unloadModel S key }, h) where
  idle hidle := (hx.idle hidle).unloadModel
  building j hj := by
    obtain ⟨hlock, hbooks, hfound, hroom⟩ := hx.building j hj
    refine ⟨hlock, hbooks.unloadModel, fun k hk ↦ hfound k ?_, hroom⟩
    rw [Manager.unloadModel] at hk
    split at hk
    · exact (AList.mem_erase.mp hk).2
    · exact hk

theorem locked {f : Manager.Files} {ctor : ReqId → Prop} (hx : Inv S (s, h))
    (hl : s.loadLock = none) (hcare : Careful S ctor (s, h) (.cache (.acquire i f))) :
    Inv S (s.locked S i f, record S s (.cache (.acquire i f)) h) := by
  have hidle := hx.not_building hl
  have hbooks := hx.idle hl
  by_cases hop : (s.reqs i).op = .evict
  · rw [locked_evict hop]
    exact of_idle (s := s) (hbooks.unloadModel.acquired _ _ _ _) (fun j _ ↦ hidle j)
      (.finish fun _ _ ↦ rfl)
  have hr := locked_load (S := S) (s := s) (i := i) (f := f) hop
  have hbegins := begins_loadBegin S s.mgr f (s.reqs i).op.forced
    (S.resolveServingName (s.reqs i).modelName) (s.reqs i).adapterPath
  generalize s.mgr.loadBegin S f (s.reqs i).op.forced
    (S.resolveServingName (s.reqs i).modelName) (s.reqs i).adapterPath = r at hbegins hr
  -- the load is over
  have hover : r.2 ≠ .build → Books S h none (s.locked S i f).mgr →
      Inv S (s.locked S i f, record S s (.cache (.acquire i f)) h) := by
    intro hne hb
    exact of_idle (s := s) (hb.acquired _ _ _ _) (fun j _ ↦ hidle j)
      ⟨hr.reqs, fun hpc ↦ hne (hr.building.mp hpc)⟩
  have hm := hr.models
  have hc := hr.costs
  cases hbegins with
  | hit l hl' hno => exact hover (by simp) ((hbooks.touch hl').congr hm hc)
  | refused e hno => exact hover (by simp) (hbooks.congr hm hc)
  | emptied m' haff hkeys =>
      exact hover (by simp) (books_of_nil ((congrArg AList.keys hm).trans hkeys))
  | tooLarge budget cost hyes hbudget hcost hlt =>
      have hkey : (s.reqs i).key S ∉ s.mgr.models := fun hk ↦
        absurd hlt (Nat.not_lt.mpr (hcare hop hk hyes budget cost hbudget hcost))
      exact hover (by simp) ((hbooks.update_of_not_mem hkey _).congr hm hc)
  | build haff =>
      refine ⟨fun hnone ↦ ?_, fun j hj ↦ ?_⟩
      · rw [hr.lock, if_pos rfl] at hnone
        cases hnone
      · obtain rfl : j = i := by
          by_contra hne
          rw [hr.reqs j hne] at hj
          exact hidle j hj
        refine ⟨hr.lock.trans (if_pos rfl), ?_, fun k hk ↦ ?_, ?_⟩
        · have hroom : Books S (record S s (.cache (.acquire j f)) h) (some ((s.reqs j).key S))
              (s.mgr.makeRoomFor S ((s.reqs j).key S) f.costMb).1 :=
            hbooks.makeRoomFor haff rfl rfl
          rw [hr.key]
          exact hroom.congr hm hc
        · have hpurged := (makeRoomFor_spec s.mgr ((s.reqs j).key S) haff).2.1
          exact AList.mem_keys.mp (hpurged.subset k (hm ▸ hk))
        · -- who has stayed is as `stay` tells
          have hstay : (s.locked S j f).mgr.models.keys =
              stay S s.mgr ((s.reqs j).key S) f.costMb :=
            (congrArg AList.keys hm).trans (makeRoomFor_spec s.mgr ((s.reqs j).key S) haff).1
          show decide _ = decide _
          rw [hstay]

theorem built {ok : Bool} {ctor : ReqId → Prop} (hx : Inv S (s, h))
    (hpc : (s.reqs i).pc = .building) (hcare : Careful S ctor (s, h) (.cache (.construct i ok))) :
    Inv S (s.built S i ok, record S s (.cache (.construct i ok)) h) := by
  obtain ⟨hlock, hbooks, -⟩ := hx.building i hpc
  have hidle : ∀ j, j ≠ i → (s.reqs j).pc ≠ .building := by
    intro j hne hj
    exact hne (Option.some.inj ((hx.building j hj).1.symm.trans hlock))
  cases ok with
  | false =>
      have hdone := hbooks.abandon hcare.1
      have hbooks' : Books S (record S s (.cache (.construct i false)) h) none
          (s.built S i false).mgr := ⟨hdone.costs, hdone.pending, hdone.budget⟩
      exact of_idle (s := s) hbooks' hidle (.finish fun _ _ ↦ rfl)
  | true =>
      have hb := built_true (i := i) hbooks
      exact of_idle (s := s) hb.books hidle hb.toEnds

end Inv

/-- A step of the cache in a state with right books: it leaves the cache consistent if it raises,
if and only if it is careful, and then the books stay right. -/
theorem step_iff (S : Settings) (ctor : ReqId → Prop) {x x' : State × Ledger} {a : Flags.Act}
    (hx : Inv S x) (hn : (accounts S).next x a = some x') :
    ((∀ i e, Raises x.1 x'.1 i e → Consistent S ctor x' i e) ↔ Careful S ctor x a) ∧
      (Careful S ctor x a → Inv S x') := by
  obtain ⟨s, h⟩ := x
  obtain ⟨t, ht, rfl⟩ := Option.map_eq_some_iff.mp hn
  cases a with
  | unload key =>
      cases ht
      refine ⟨iff_of_true (fun i e hr ↦ absurd hr.2 hr.1) trivial, fun _ ↦ hx.unload⟩
  | cache a =>
      cases a with
      | call i op modelName adapterPath =>
          simp only [Flags.step, Models.step, Option.ite_none_right_eq_some,
            Option.some.injEq] at ht
          obtain ⟨hpc, rfl⟩ := ht
          obtain ⟨htouch, hlock, hserved⟩ :=
            call_served (S := S) (s := s) (i := i) ⟨op, modelName, adapterPath, .acquiring⟩
          refine ⟨iff_of_true ?_ trivial, fun _ ↦ hx.of_touches htouch hlock hserved.toEnds⟩
          refine (forall_raises hserved.reqs (by simp [hpc])).mpr ?_
          exact fun e he ↦ absurd he (hserved.pc_ne e)
      | acquire i f =>
          simp only [Flags.step, Models.step, Option.ite_none_right_eq_some,
            Option.some.injEq] at ht
          obtain ⟨⟨hpc, hl⟩, rfl⟩ := ht
          refine ⟨?_, hx.locked hl⟩
          by_cases hop : (s.reqs i).op = .evict
          · refine iff_of_true ?_ fun hno ↦ absurd hop hno
            rw [locked_evict hop]
            refine (forall_raises (fun j hj ↦ State.setPc_reqs_of_ne hj) (by simp [hpc])).mpr ?_
            intro e he
            rw [State.setPc_pc] at he
            cases he
          · exact acquire_iff (hx.idle hl) hpc hop
      | construct i ok =>
          simp only [Flags.step, Models.step, Option.ite_none_right_eq_some,
            Option.some.injEq] at ht
          obtain ⟨hpc, rfl⟩ := ht
          obtain ⟨-, hbooks, hfound, hroom⟩ := hx.building i hpc
          refine ⟨?_, hx.built hpc⟩
          cases ok with
          | false => exact construct_false_iff hbooks hfound hroom hpc
          | true =>
              have hb := built_true hbooks
              refine iff_of_true ?_ trivial
              refine (forall_raises hb.reqs (by simp [hpc])).mpr fun e he ↦ ?_
              obtain ⟨rfl, hsub⟩ := hb.raised e he
              exact consistent_of_books hb.books (fun k hk ↦ hfound k (hsub k hk)) False.elim

/-- **What a failed load leaves behind.** -/
theorem failedLoads_iff (S : Settings) (ctor : ReqId → Prop) (l : List Flags.Act) :
    (accounts S).Always (fun x _ x' ↦ ∀ i e, Raises x.1 x'.1 i e → Consistent S ctor x' i e)
        (accounts S).init l ↔
      (accounts S).Always (fun x a _ ↦ Careful S ctor x a) (accounts S).init l :=
  System.always_iff (I := Inv S) (fun _ _ _ hx hn ↦ (step_iff S ctor hx hn).1)
    (fun _ _ _ hx hcare hn ↦ (step_iff S ctor hx hn).2 hcare) Inv.init l

/-- A model of 40 MiB is loaded. -/
def loaded : List Flags.Act := Flags.load 0 false "qwen2.5-3b-instruct" none 40 true ++
  [.cache (.call 1 (.loadModel true) "qwen2.5-3b-instruct" none)]

/-- Its file grows to 140 MiB, and a forced load finds it too large for the budget of 100: the
model stays, with a recorded cost of 140. -/
theorem failed_reload_overwrites :
    ¬ ∀ S ctor l, (accounts S).Always
      (fun x _ x' ↦ ∀ i e, Raises x.1 x'.1 i e → Consistent S ctor x' i e) (accounts S).init l := by
  intro hall
  have h := hall (Flags.ofCatalog 2 (some 100)) (fun _ ↦ False)
    (loaded ++ [.cache (.acquire 1 (Flags.found 140))])
  have hrun : (((accounts (Flags.ofCatalog 2 (some 100))).exec (fun _ _ ↦ True)
      (accounts (Flags.ofCatalog 2 (some 100))).init loaded).bind fun x ↦
        ((accounts (Flags.ofCatalog 2 (some 100))).next x
          (.cache (.acquire 1 (Flags.found 140)))).map fun x' ↦
            ((x.1.reqs 1).pc, (x'.1.reqs 1).pc, total x'.1.mgr)) =
      some (.acquiring, .finished (.raised (.tooLarge 140 100)), 140) := by decide
  obtain ⟨x, hx, hnext⟩ := Option.bind_eq_some_iff.mp hrun
  obtain ⟨x', hx', hend⟩ := Option.map_eq_some_iff.mp hnext
  simp only [Prod.mk.injEq] at hend
  have hcons := h.of_exec hx hx' 1 (.tooLarge 140 100)
    ⟨by rw [hend.1]; decide, hend.2.1⟩
  have hle := hcons.budget 100 rfl
  rw [hend.2.2] at hle
  exact absurd hle (by decide)

end Adapta.Models.Accounts
