import Adapta.Lib.System
import Adapta.Models.Manager

/-!
# Loading models concurrently

The coroutines of `ModelManager`, and `LlamaCppBackend.prepare` on top of them, as a
transition system.  Requests are coroutines of one event loop, so a step is the code
between two await points.  There are two kinds of await: taking `_load_lock`, and the
construction of a `Llama` on an executor thread, during which the lock is held.

`prepare` calls `ensure_model_loaded` and then `get_inference_lock`.  Neither the fast
path of the former nor its return from `load_model` awaits anything on the way out, so
the handle is made in the step in which the model is found or inserted.

`asyncio.Lock` is a mutex; its order of waiters is not modelled, and a request may wait
even when the lock is free.  Requests are not cancelled.
-/

namespace Adapta.Models

open Lib

abbrev ReqId := Nat

/-- The entry points that touch the cache. -/
inductive Op where
  /-- `LlamaCppBackend.prepare`. -/
  | prepare
  /-- `ensure_model_loaded`. -/
  | ensureModelLoaded
  /-- `load_model`. -/
  | loadModel (forceReload : Bool)
  /-- `evict`. -/
  | evict
deriving DecidableEq, Repr

/-- Whether the call loads with `force_reload=True`. -/
def Op.forced : Op → Bool
  | .loadModel forceReload => forceReload
  | .prepare | .ensureModelLoaded | .evict => false

/-- How a request ended. -/
inductive Outcome where
  /-- The `Llama` of `load_model` or `ensure_model_loaded`. -/
  | model (llama : Obj)
  /-- The handle of `prepare`. -/
  | handle (llama lock : Obj)
  /-- What `evict` returns. -/
  | evicted (loaded : Bool)
  | raised (e : Manager.LoadError)
deriving DecidableEq, Repr

inductive ReqPc where
  | absent
  /-- Waiting for `_load_lock`. -/
  | acquiring
  /-- `await loop.run_in_executor(None, ...)`, inside `_load_lock`. -/
  | building
  | finished (o : Outcome)
deriving DecidableEq, Repr

/-- A request: the operation, its arguments, and where it is. -/
structure Req where
  op : Op
  modelName : String
  adapterPath : Option String
  pc : ReqPc
deriving DecidableEq, Repr

/-- A `LlamaCppHandle`. -/
structure Handle where
  llama : Obj
  lock : Obj
deriving DecidableEq, Repr

structure State where
  mgr : Manager
  /-- The holder of `_load_lock`. -/
  loadLock : Option ReqId
  reqs : ReqId → Req
  /-- Every handle ever made. -/
  handles : List Handle

def State.init : State :=
  { mgr := .init
    loadLock := none
    reqs := fun _ ↦ ⟨.evict, "", none, .absent⟩
    handles := [] }

/-- The cache key a request is about. -/
def Req.key (S : Settings) (q : Req) : String :=
  cacheKey (S.resolveServingName q.modelName) q.adapterPath

namespace State

variable (S : Settings) (s : State) (i : ReqId)

def setPc (pc : ReqPc) : State :=
  { s with reqs := Function.update s.reqs i { s.reqs i with pc := pc } }

/-- A request leaves with a model that is in the cache: `prepare` looks up the inference
lock in the same step. -/
def deliver (llama : Obj) : State :=
  match (s.reqs i).op with
  | .prepare =>
      let r := s.mgr.getInferenceLock ((s.reqs i).key S)
      { s with mgr := r.1, handles := ⟨llama, r.2⟩ :: s.handles }.setPc i
        (.finished (.handle llama r.2))
  | _ => s.setPc i (.finished (.model llama))

/-- A request starts, and runs to its first await. -/
def call (q : Req) : State :=
  let s := { s with reqs := Function.update s.reqs i { q with pc := .acquiring } }
  match q.op, s.mgr.models.lookup (q.key S) with
  -- the check of `ensure_model_loaded` outside `_load_lock`
  | .prepare, some llama | .ensureModelLoaded, some llama =>
      let mgr := { s.mgr with models := s.mgr.models.insert (q.key S) llama }
      { s with mgr := mgr }.deliver S i llama
  | _, _ => s

/-- A request gets `_load_lock`, and runs on. -/
def locked (f : Manager.Files) : State :=
  let q := s.reqs i
  match q.op with
  | .evict =>
      let mgr := s.mgr.unloadModel S (q.key S)
      { s with mgr := mgr }.setPc i (.finished (.evicted (decide (q.key S ∈ s.mgr.models))))
  | op =>
      let r := s.mgr.loadBegin S f op.forced (S.resolveServingName q.modelName) q.adapterPath
      match r.2 with
      | .hit llama => { s with mgr := r.1 }.deliver S i llama
      | .raised e => { s with mgr := r.1 }.setPc i (.finished (.raised e))
      | .build => { s with mgr := r.1, loadLock := some i }.setPc i .building

/-- The construction is over, and `_load_lock` is released. -/
def built (ok : Bool) : State :=
  let q := s.reqs i
  let r := s.mgr.loadEnd S q.op.forced (S.resolveServingName q.modelName) q.adapterPath
  if ok then
    match r.2 with
    | .ok llama => { s with mgr := r.1, loadLock := none }.deliver S i llama
    | .error e => { s with mgr := r.1, loadLock := none }.setPc i (.finished (.raised e))
  else { s with loadLock := none }.setPc i (.finished (.raised .constructor))

end State

/-- One atomic step. -/
inductive Act where
  | call (i : ReqId) (op : Op) (modelName : String) (adapterPath : Option String)
  /-- `_load_lock` is granted; `f` is what the request finds on the disk. -/
  | acquire (i : ReqId) (f : Manager.Files)
  /-- The `Llama` constructor returns or raises. -/
  | construct (i : ReqId) (ok : Bool)
deriving DecidableEq, Repr

/-- One step of the system. -/
def step (S : Settings) (s : State) : Act → Option State
  | .call i op modelName adapterPath =>
      if (s.reqs i).pc = .absent then some (s.call S i ⟨op, modelName, adapterPath, .acquiring⟩)
      else none
  | .acquire i f =>
      if (s.reqs i).pc = .acquiring ∧ s.loadLock = none then some (s.locked S i f) else none
  | .construct i ok => if (s.reqs i).pc = .building then some (s.built S i ok) else none

/-- The model cache under any load of requests. -/
def cache (S : Settings) : System State Act := ⟨State.init, step S⟩

end Adapta.Models
