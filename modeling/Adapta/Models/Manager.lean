import Mathlib.Algebra.GroupWithZero.Nat
import Mathlib.Data.List.AList

/-!
# The model cache

`ModelManager` of `adapta/core/model_manager.py` keeps the loaded `Llama` objects in an
`OrderedDict`, and three more dictionaries under the same kind of key: the inference
locks, the estimated costs, and the `loaded` flags of the catalog.  This module models
these tables and every synchronous piece of code that changes them; the await points
of `load_model` and its callers are in `Adapta.Models.Loading`.

A dictionary is an `AList` or a function to `Option`.  The `OrderedDict` is written
here with the *most* recently used entry first, so that `AList.insert` is an assignment
followed by `move_to_end`, and `popitem(last=False)` takes the last entry.

Objects have identities: `Llama` objects and locks are numbers drawn from one counter.
What is found on the disk during a load (`Files`) is an argument: file checks and the
cost estimate read it anew each time.
-/

namespace Adapta.Models

/-- The identity of a `Llama` object or of an `asyncio.Lock`. -/
abbrev Obj := Nat

/-! ## Keys -/

/-- The separator of a composite cache key. -/
def loraSep : String := "::lora::"

/-- `_cache_key`. -/
def cacheKey (modelName : String) (adapterPath : Option String) : String :=
  match adapterPath with
  | none => modelName
  | some path => if path = "" then modelName else modelName ++ loraSep ++ path

/-- The part of a text before the first occurrence of `sep`. -/
def beforeSep (sep : List Char) : List Char → List Char
  | [] => []
  | c :: cs => if sep.isPrefixOf (c :: cs) then [] else c :: beforeSep sep cs

/-- `key.split("::lora::", 1)[0]`. -/
def baseOf (key : String) : String := String.ofList (beforeSep loraSep.toList key.toList)

/-! ## Tables -/

/-- What the catalog says of one model. -/
structure Config where
  /-- `mmproj_path` is set. -/
  vision : Bool
deriving DecidableEq, Repr

/-- What is fixed while the process runs. -/
structure Settings where
  maxLoadedModels : Nat
  /-- `memory_budget.budget_mb()`. -/
  budgetMb : Option Nat
  /-- `_configs`. -/
  configs : String → Option Config
  /-- The catalog's lookup of a Hugging Face repo id. -/
  byHfId : String → Option String

/-- `_resolve_serving_name`. -/
def Settings.resolveServingName (S : Settings) (modelName : String) : String :=
  if (S.configs modelName).isSome then modelName else (S.byHfId modelName).getD modelName

/-- What happens to the keys of the cache; newest first in a trace. -/
inductive Event where
  /-- A `Llama` was constructed for the key, by a forced load or not. -/
  | built (key : String) (forced : Bool)
  /-- The key left the cache. -/
  | removed (key : String)
deriving DecidableEq, Repr

/-- The state of a `ModelManager`. -/
structure Manager where
  /-- `_models`, the most recently used entry first. -/
  models : AList fun _ : String ↦ Obj
  /-- `_infer_locks`. -/
  inferLocks : String → Option Obj
  /-- `_costs`. -/
  costs : String → Option Nat
  /-- `_configs[name].loaded`. -/
  loaded : String → Bool
  /-- The next unused object identity. -/
  fresh : Obj
  /-- A record of the keys' history, which no code reads. -/
  trace : List Event

namespace Manager

def init : Manager :=
  { models := ∅, inferLocks := fun _ ↦ none, costs := fun _ ↦ none, loaded := fun _ ↦ false,
    fresh := 0, trace := [] }

variable (S : Settings) (m : Manager)

/-- The key `popitem(last=False)` would take. -/
def lru : Option String := m.models.keys.getLast?

/-- A key leaves the cache with its lock, and its base is flagged as unloaded: the body
of the eviction loops and of `unload_model`. -/
def dropKey (key : String) : Manager :=
  { m with
    models := m.models.erase key
    inferLocks := Function.update m.inferLocks key none
    loaded :=
      if (S.configs (baseOf key)).isSome then Function.update m.loaded (baseOf key) false
      else m.loaded
    trace := .removed key :: m.trace }

/-- A forced load pops the entry it is about to replace: the lock and the flag stay. -/
def popReplaced (key : String) : Manager :=
  { m with models := m.models.erase key, trace := .removed key :: m.trace }

/-- `_evict_lru_if_needed`, at most `n` iterations.  The flag is `false` when `popitem`
raises because nothing is left to evict, which a cap of zero leads to. -/
def evictLruLoop : Nat → Manager → Manager × Bool
  | 0, m => (m, true)
  | n + 1, m =>
      if m.models.keys.length < S.maxLoadedModels then (m, true)
      else
        match m.lru with
        | none => (m, false)
        | some key => evictLruLoop n (m.dropKey S key)

/-- `_evict_lru_if_needed`: every iteration removes an entry, and one more test ends
the loop. -/
def evictLruIfNeeded : Manager × Bool := evictLruLoop S (m.models.keys.length + 1) m

/-- The recorded cost of the resident models other than `key`. -/
def used (key : String) : Nat :=
  ((m.models.keys.filter (· ≠ key)).map fun k ↦ (m.costs k).getD 0).sum

/-- The memory loop of `_make_room_for`, at most `n` iterations. -/
def makeRoomLoop (key : String) (cost budget : Nat) : Nat → Manager → Manager
  | 0, m => m
  | n + 1, m =>
      match m.lru with
      | none => m
      | some old =>
          if m.used key + cost ≤ budget then m
          else if old = key then makeRoomLoop key cost budget n (m.popReplaced key)
          else makeRoomLoop key cost budget n (m.dropKey S old)

/-- The exceptions of `load_model`. -/
inductive LoadError where
  /-- `ValueError`. -/
  | unknownModel
  /-- `FileNotFoundError`, for the GGUF, the adapter or the vision projector. -/
  | modelNotFound
  | adapterNotFound
  | mmprojNotFound
  /-- The multimodal chat handler cannot be built. -/
  | chatHandler
  /-- The model file's size cannot be read. -/
  | stat
  /-- `ModelTooLargeForMemory`. -/
  | tooLarge (cost budget : Nat)
  /-- `popitem` of an empty dictionary. -/
  | nothingToEvict
  /-- The `Llama` constructor. -/
  | constructor
deriving DecidableEq, Repr

/-- What a load finds on the disk. -/
structure Files where
  model : Bool
  adapter : Bool
  mmproj : Bool
  chatHandler : Bool
  /-- `estimate_cost_mb`, if the model file's size can be read. -/
  costMb : Option Nat
deriving DecidableEq, Repr

/-- `_make_room_for`. -/
def makeRoomFor (key : String) (costMb : Option Nat) : Manager × Option LoadError :=
  match S.budgetMb, costMb with
  | none, _ =>
      let m := { m with costs := Function.update m.costs key (some 0) }
      if key ∈ m.models then (m, none)
      else
        let r := m.evictLruIfNeeded S
        (r.1, if r.2 then none else some .nothingToEvict)
  | some _, none => (m, some .stat)
  | some budget, some cost =>
      let m := { m with costs := Function.update m.costs key (some cost) }
      if budget < cost then (m, some (.tooLarge cost budget))
      else if key ∈ m.models then
        (makeRoomLoop S key cost budget m.models.keys.length m, none)
      else
        let r := m.evictLruIfNeeded S
        if r.2 then (makeRoomLoop S key cost budget r.1.models.keys.length r.1, none)
        else (r.1, some .nothingToEvict)

/-- How the synchronous first half of `load_model` ends. -/
inductive Begun where
  /-- The key is resident and the load is not forced. -/
  | hit (llama : Obj)
  /-- The `Llama` constructor is submitted to the executor. -/
  | build
  | raised (e : LoadError)
deriving DecidableEq, Repr

/-- `load_model` up to the construction. -/
def loadBegin (f : Files) (forceReload : Bool) (servingName : String)
    (adapterPath : Option String) : Manager × Begun :=
  let key := cacheKey servingName adapterPath
  match m.models.lookup key, forceReload with
  | some llama, false => ({ m with models := m.models.insert key llama }, .hit llama)
  | _, _ =>
      match S.configs servingName with
      | none => (m, .raised .unknownModel)
      | some config =>
          if f.model = false then (m, .raised .modelNotFound)
          else if adapterPath.any (· ≠ "") ∧ f.adapter = false then (m, .raised .adapterNotFound)
          else if config.vision ∧ f.mmproj = false then (m, .raised .mmprojNotFound)
          else if config.vision ∧ f.chatHandler = false then (m, .raised .chatHandler)
          else
            let r := m.makeRoomFor S key f.costMb
            (r.1, r.2.elim .build .raised)

/-- The constructor returns a new object. -/
def construct (key : String) (forceReload : Bool) : Manager :=
  { m with fresh := m.fresh + 1, trace := .built key forceReload :: m.trace }

/-- An object is stored under a key as the most recently used one. -/
def place (servingName key : String) (llama : Obj) : Manager :=
  { m with
    models := m.models.insert key llama
    loaded := Function.update m.loaded servingName true }

/-- `load_model` from the end of the construction on. -/
def loadEnd (forceReload : Bool) (servingName : String) (adapterPath : Option String) :
    Manager × Except LoadError Obj :=
  let key := cacheKey servingName adapterPath
  let m' := m.construct key forceReload
  let r := if key ∈ m'.models then (m', true) else m'.evictLruIfNeeded S
  if r.2 then (r.1.place servingName key m.fresh, .ok m.fresh)
  else (r.1, .error .nothingToEvict)

/-- `unload_model`. -/
def unloadModel (key : String) : Manager := if key ∈ m.models then m.dropKey S key else m

/-- `get_inference_lock`, for a cache key. -/
def getInferenceLock (key : String) : Manager × Obj :=
  match m.inferLocks key with
  | some lock => (m, lock)
  | none =>
      ({ m with
          inferLocks := Function.update m.inferLocks key (some m.fresh)
          fresh := m.fresh + 1 }, m.fresh)

end Manager

end Adapta.Models
