import Mathlib.Data.List.Nodup
import Adapta.Chat.Router
import Adapta.Keys.Routes
import Adapta.Lib.Fallible

/-!
# A key serves its own endpoint

A request is looked up by the first characters of its key and then by digest, among rows of any
endpoint.  In every reachable state each row comes from one key handed out, as it was added or
revoked (`Inv`), so with distinct keys and a digest without collisions at most one active row
matches.

The token of a new key is 32 random bytes of `secrets.token_urlsafe`.  That no token was drawn
twice, and that the digest has no collisions among the keys handed out and the one presented,
is what the results assume (`Fresh`).
-/

namespace Adapta.Keys

open Api Chat Lib

variable {isValid : String → Bool} {allowed : String} {sha256 : String → String}

/-! ## What the routes write -/

theorem getProject_ok {db : Db} {p : ProjectId} {project : Project}
    (h : db.getProject p = .ok project) : project ∈ db.projects ∧ project.id = p := by
  rw [Db.getProject] at h
  split at h
  · next hp =>
    cases h
    exact ⟨List.mem_of_find?_eq_some hp, by simpa using List.find?_some hp⟩
  · cases h

theorem createProject_ok {db db' : Db} {user : UserId} {p : Project}
    (h : createProject isValid db user p allowed = .ok db') :
    ∃ q, db' = { db with projects := q :: db.projects } := by
  obtain ⟨_, _, h⟩ := bind_eq_ok.mp h
  split at h
  · cases h
  · split at h
    · cases h
    · cases h
      exact ⟨_, rfl⟩

theorem deleteProject_ok {db db' : Db} {user : UserId} {p : ProjectId}
    (h : deleteProject db user p = .ok db') :
    db'.projects = db.projects.filter (·.id ≠ p) ∧
      db'.endpoints = (dropEndpoints db (·.project = p)).endpoints ∧
      db'.keys = (dropEndpoints db (·.project = p)).keys := by
  obtain ⟨_, _, h⟩ := bind_eq_ok.mp h
  obtain ⟨_, _, h⟩ := bind_eq_ok.mp h
  cases h
  exact ⟨rfl, rfl, rfl⟩

theorem createEndpoint_ok {db db' : Db} {user : UserId} {p : ProjectId} {id : EndpointId}
    (h : createEndpoint db user p id = .ok db') :
    ∃ e, db' = { db with endpoints := e :: db.endpoints } ∧
      (∃ project ∈ db.projects, project.id = e.project) ∧ e.id ∉ db.endpoints.map Endpoint.id := by
  obtain ⟨project, hp, h⟩ := bind_eq_ok.mp h
  obtain ⟨_, _, h⟩ := bind_eq_ok.mp h
  split at h
  · cases h
  · split at h
    · cases h
    · obtain ⟨adapter, -, h⟩ := bind_eq_ok.mp h
      simp only at h
      split at h
      · cases h
      · next hnew =>
        cases h
        refine ⟨_, rfl, ⟨project, getProject_ok hp⟩, fun hmem ↦ hnew ?_⟩
        obtain ⟨e, he, hid⟩ := List.mem_map.mp hmem
        exact List.any_eq_true.mpr ⟨e, he, by simp [hid]⟩

/-- A key handed out is the one whose digest and first characters are stored. -/
def Genuine (sha256 : String → String) (x : String × ApiKey) : Prop :=
  x.2.isActive = true ∧ x.2.keyPrefix = clip x.1 8 ∧ x.2.keyHash = sha256 x.1

theorem createKey_ok {db : Db} {user : UserId} {p : ProjectId} {id : KeyId}
    {name token : String} {out : Db × String × ApiKey}
    (h : createKey sha256 db user p id name token = .ok out) :
    out.1 = { db with keys := out.2.2 :: db.keys } ∧ Genuine sha256 out.2 := by
  obtain ⟨_, _, h⟩ := bind_eq_ok.mp h
  obtain ⟨_, _, h⟩ := bind_eq_ok.mp h
  obtain ⟨e, -, h⟩ := bind_eq_ok.mp h
  split at h
  · cases h
  · cases h
    exact ⟨rfl, rfl, rfl, rfl⟩

theorem revokeKey_ok {db db' : Db} {user : UserId} {p : ProjectId} {id : KeyId}
    (h : revokeKey db user p id = .ok db') :
    ∃ e : Endpoint, db' = { db with keys := db.keys.map fun k ↦
      if k.id = id ∧ k.endpoint = e.id then { k with isActive := false } else k } := by
  obtain ⟨_, _, h⟩ := bind_eq_ok.mp h
  obtain ⟨_, _, h⟩ := bind_eq_ok.mp h
  obtain ⟨e, -, h⟩ := bind_eq_ok.mp h
  split at h
  · cases h
    exact ⟨e, rfl⟩
  · cases h

/-! ## The invariant -/

/-- The row is one that was added for a key handed out, or that row revoked. -/
def Traced (issued : Issued) (k : ApiKey) : Prop :=
  ∃ x ∈ issued, k = x.2 ∨ k = { x.2 with isActive := false }

structure Inv (sha256 : String → String) (db : Db) (issued : Issued) : Prop where
  genuine : ∀ x ∈ issued, Genuine sha256 x
  traced : ∀ k ∈ db.keys, Traced issued k
  endpoints : (db.endpoints.map Endpoint.id).Nodup
  projects : ∀ e ∈ db.endpoints, ∃ p ∈ db.projects, p.id = e.project

theorem inv_empty : Inv sha256 .empty [] := by
  constructor <;> simp [Db.empty]

theorem Inv.addKey {db : Db} {issued : Issued} {x : String × ApiKey} (h : Inv sha256 db issued)
    (hx : Genuine sha256 x) : Inv sha256 { db with keys := x.2 :: db.keys } (x :: issued) where
  genuine := List.forall_mem_cons.mpr ⟨hx, h.genuine⟩
  traced k hk := by
    rcases List.mem_cons.mp hk with rfl | hk
    · exact ⟨x, List.mem_cons_self, .inl rfl⟩
    · obtain ⟨y, hy, hk⟩ := h.traced k hk
      exact ⟨y, List.mem_cons_of_mem x hy, hk⟩
  endpoints := h.endpoints
  projects := h.projects

theorem Inv.revoke {db : Db} {issued : Issued} (h : Inv sha256 db issued) (id : KeyId)
    (e : Endpoint) : Inv sha256 { db with keys := db.keys.map fun k ↦
      if k.id = id ∧ k.endpoint = e.id then { k with isActive := false } else k } issued where
  genuine := h.genuine
  traced k hk := by
    obtain ⟨k', hk', rfl⟩ := List.mem_map.mp hk
    obtain ⟨x, hx, hrow⟩ := h.traced k' hk'
    refine ⟨x, hx, ?_⟩
    split
    · rcases hrow with rfl | rfl
      · exact .inr rfl
      · exact .inr rfl
    · exact hrow
  endpoints := h.endpoints
  projects := h.projects

/-- Rows of endpoints go, with their keys, and perhaps the project they belong to. -/
theorem Inv.drop {db db' : Db} {issued : Issued} {gone : Endpoint → Bool}
    (h : Inv sha256 db issued) (he : db'.endpoints = (dropEndpoints db gone).endpoints)
    (hk : db'.keys = (dropEndpoints db gone).keys)
    (hp : ∀ e ∈ db'.endpoints, ∀ p ∈ db.projects, p.id = e.project → p ∈ db'.projects) :
    Inv sha256 db' issued where
  genuine := h.genuine
  traced k hmem := by
    rw [hk] at hmem
    exact h.traced k (List.mem_of_mem_filter hmem)
  endpoints := by
    rw [he]
    exact h.endpoints.sublist (List.filter_sublist.map _)
  projects e hmem := by
    have hmem' := hmem
    rw [he] at hmem'
    obtain ⟨p, hpm, hid⟩ := h.projects e (List.mem_of_mem_filter hmem')
    exact ⟨p, hp e hmem p hpm hid, hid⟩

/-- What every operation keeps. -/
theorem Inv.run {db db' : Db} {issued : Issued} {op : Op} (h : Inv sha256 db issued)
    (hrun : op.run isValid allowed sha256 db = .ok db') :
    Inv sha256 db' (op.issues sha256 db ++ issued) := by
  cases op with
  | createProject user p =>
      obtain ⟨q, rfl⟩ := createProject_ok hrun
      refine ⟨h.genuine, h.traced, h.endpoints, ?_⟩
      intro e he
      obtain ⟨p, hp, hid⟩ := h.projects e he
      exact ⟨p, List.mem_cons_of_mem q hp, hid⟩
  | deleteProject user p =>
      obtain ⟨hproj, hend, hkeys⟩ := deleteProject_ok hrun
      apply h.drop hend hkeys
      intro e he q hq hid
      rw [hend] at he
      have hne : e.project ≠ p := by simpa using (List.mem_filter.mp he).2
      rw [hproj]
      exact List.mem_filter.mpr ⟨hq, by simpa [hid] using hne⟩
  | createEndpoint user p id =>
      obtain ⟨e, rfl, hproj, hnew⟩ := createEndpoint_ok hrun
      exact ⟨h.genuine, h.traced, List.nodup_cons.mpr ⟨hnew, h.endpoints⟩,
        List.forall_mem_cons.mpr ⟨hproj, h.projects⟩⟩
  | createKey user p id name token =>
      obtain ⟨out, hout, rfl⟩ := map_eq_ok.mp hrun
      obtain ⟨hdb, hgen⟩ := createKey_ok hout
      have hissues : (Op.createKey user p id name token).issues sha256 db = [out.2] := by
        simp [Op.issues, hout]
      rw [hdb, hissues]
      exact h.addKey hgen
  | revokeKey user p id =>
      obtain ⟨e, rfl⟩ := revokeKey_ok hrun
      exact h.revoke id e
  | setEndpoint id status adapter =>
      cases hrun
      refine ⟨h.genuine, h.traced, ?_, ?_⟩
      · have hids : ∀ e : Endpoint,
            (if e.id = id then { e with status, adapter } else e).id = e.id := by
          intro e
          split <;> rfl
        simpa [Function.comp_def, hids] using h.endpoints
      · intro e he
        obtain ⟨e', he', rfl⟩ := List.mem_map.mp he
        obtain ⟨p, hp, hid⟩ := h.projects e' he'
        refine ⟨p, hp, hid.trans ?_⟩
        split <;> rfl
  | dropEndpoint id =>
      cases hrun
      exact h.drop rfl rfl fun e _ p hp _ ↦ hp
  | other adapters chunks role =>
      cases hrun
      exact ⟨h.genuine, h.traced, h.endpoints, h.projects⟩

/-- A refused operation hands out nothing. -/
theorem issues_of_error {db : Db} {op : Op} {e : DomainError}
    (h : op.run isValid allowed sha256 db = .error e) : op.issues sha256 db = [] := by
  cases op with
  | createKey user p id name token =>
      simp only [Op.run] at h
      cases hk : createKey sha256 db user p id name token with
      | error e => simp [Op.issues, hk]
      | ok out => simp [hk, Except.map] at h
  | createProject | deleteProject | createEndpoint | revokeKey | setEndpoint | dropEndpoint
    | other => rfl

/-- Over every sequence of operations, rows come from keys handed out, ids of endpoints are
unique, and an endpoint has a project. -/
theorem inv_of_reachable {s : Db × Issued}
    (h : (keySystem isValid allowed sha256).Reachable s) : Inv sha256 s.1 s.2 := by
  apply h.invariant (P := fun s ↦ Inv sha256 s.1 s.2) inv_empty
  rintro ⟨db, issued⟩ op s' hinv - hnext
  simp only [keySystem, System.ghost, keyTables, Option.map_some, Option.some.injEq] at hnext
  subst hnext
  cases hrun : op.run isValid allowed sha256 db with
  | error e =>
      rw [issues_of_error hrun]
      exact hinv
  | ok db' => exact hinv.run hrun

/-! ## Resolving a key -/

/-- No token was drawn twice, and the digest has no collision among the keys handed out and
those presented. -/
structure Fresh (sha256 : String → String) (issued : Issued) (presented : String → Prop) :
    Prop where
  distinct : (issued.map Prod.fst).Nodup
  injective : Set.InjOn sha256 {k | k ∈ issued.map Prod.fst ∨ presented k}

/-- The key was handed out for the endpoint, and its row is still there and active. -/
def Authorizes (db : Db) (issued : Issued) (raw : String) (e : Endpoint) : Prop :=
  ∃ row, (raw, row) ∈ issued ∧ row.endpoint = e.id ∧ row ∈ db.keys ∧ row.isActive = true

variable {db : Db} {issued : Issued} {presented : String → Prop} {scan : Scan} {raw : String}

theorem mem_candidates {k : ApiKey} : k ∈ candidates scan db raw ↔
    k ∈ db.keys ∧ k.keyPrefix = clip raw 8 ∧ k.isActive = true := by
  rw [candidates, (scan.perm _).mem_iff, List.mem_filter, decide_eq_true_eq]

/-- An active row with the digest of a key is the row added for that key. -/
theorem Inv.row_of_match (h : Inv sha256 db issued) (hf : Fresh sha256 issued presented)
    (hraw : presented raw) {k : ApiKey} (hk : k ∈ db.keys) (hactive : k.isActive = true)
    (hhash : verifyApiKey sha256 raw k.keyHash = true) : (raw, k) ∈ issued := by
  obtain ⟨⟨raw', row⟩, hx, rfl | rfl⟩ := h.traced k hk
  · obtain ⟨-, -, hdigest⟩ := h.genuine _ hx
    simp only [verifyApiKey, decide_eq_true_eq] at hhash
    have hsame : raw = raw' := hf.injective (.inr hraw) (.inl (List.mem_map_of_mem hx))
      (hhash.trans hdigest)
    rw [hsame]
    exact hx
  · cases hactive

/-- A key was handed out once. -/
theorem Fresh.row_unique (hf : Fresh sha256 issued presented) {row row' : ApiKey}
    (h : (raw, row) ∈ issued) (h' : (raw, row') ∈ issued) : row = row' :=
  congrArg Prod.snd (List.inj_on_of_nodup_map hf.distinct h h' rfl)

/-- The row the scan stops at is the active row of the key, whatever the order of the rows. -/
theorem Inv.find_iff (h : Inv sha256 db issued) (scan : Scan) (hf : Fresh sha256 issued presented)
    (hraw : presented raw) {k : ApiKey} :
    (candidates scan db raw).find? (fun k ↦ verifyApiKey sha256 raw k.keyHash) = some k ↔
      (raw, k) ∈ issued ∧ k ∈ db.keys ∧ k.isActive = true := by
  constructor
  · intro hfind
    obtain ⟨hk, -, hactive⟩ := mem_candidates.mp (List.mem_of_find?_eq_some hfind)
    have hmatch := List.find?_some hfind
    exact ⟨h.row_of_match hf hraw hk hactive hmatch, hk, hactive⟩
  · rintro ⟨hx, hk, hactive⟩
    obtain ⟨-, hpre, hdigest⟩ := h.genuine _ hx
    have hmatch : verifyApiKey sha256 raw k.keyHash = true := by
      simpa [verifyApiKey] using hdigest.symm
    cases hfind : (candidates scan db raw).find? fun k ↦ verifyApiKey sha256 raw k.keyHash with
    | none =>
        have hnone := List.find?_eq_none.mp hfind k (mem_candidates.mpr ⟨hk, hpre, hactive⟩)
        exact absurd hmatch hnone
    | some k' =>
        obtain ⟨hk', -, hactive'⟩ := mem_candidates.mp (List.mem_of_find?_eq_some hfind)
        have hmatch' := List.find?_some hfind
        rw [hf.row_unique (h.row_of_match hf hraw hk' hactive' hmatch') hx]

/-- The endpoint of an id. -/
theorem Inv.find_endpoint_iff (h : Inv sha256 db issued) {id : EndpointId} {e : Endpoint} :
    db.endpoints.find? (·.id = id) = some e ↔ e ∈ db.endpoints ∧ e.id = id := by
  constructor
  · intro hfind
    exact ⟨List.mem_of_find?_eq_some hfind, by simpa using List.find?_some hfind⟩
  · rintro ⟨he, rfl⟩
    cases hfind : db.endpoints.find? fun e' ↦ e'.id = e.id with
    | none => simpa using List.find?_eq_none.mp hfind e he
    | some e' =>
        have hid : e'.id = e.id := by simpa using List.find?_some hfind
        rw [List.inj_on_of_nodup_map h.endpoints (List.mem_of_find?_eq_some hfind) he hid]

/-- `_resolve_endpoint` succeeds for the endpoint of the key, if it is active, and with the
project the endpoint belongs to. -/
theorem Inv.resolve_iff (h : Inv sha256 db issued) (scan : Scan) {auth : String}
    (hf : Fresh sha256 issued fun k ↦ bearer auth = some k) {e : Endpoint} :
    (∃ p, resolveEndpoint sha256 scan db auth = .ok (e, p)) ↔
      ∃ raw, bearer auth = some raw ∧ Authorizes db issued raw e ∧ e ∈ db.endpoints ∧
        e.status = .active := by
  constructor
  · rintro ⟨p, hres⟩
    rw [resolveEndpoint] at hres
    split at hres
    · cases hres
    · next raw hraw =>
      split at hres
      · cases hres
      · next key hkey =>
        split at hres
        · cases hres
        · next endpoint hend =>
          split at hres
          · cases hres
          · next hactive =>
            split at hres
            · cases hres
            · cases hres
              obtain ⟨hx, hk, hkactive⟩ := (h.find_iff scan hf hraw).mp hkey
              obtain ⟨he, hid⟩ := h.find_endpoint_iff.mp hend
              exact ⟨raw, hraw, ⟨key, hx, hid.symm, hk, hkactive⟩, he, not_not.mp hactive⟩
  · rintro ⟨raw, hraw, ⟨key, hx, hid, hk, hkactive⟩, he, hactive⟩
    have hkey := (h.find_iff scan hf hraw).mpr ⟨hx, hk, hkactive⟩
    have hend := h.find_endpoint_iff.mpr ⟨he, hid.symm⟩
    obtain ⟨p, hp, hpid⟩ := h.projects e he
    cases hproj : db.projects.find? fun q ↦ q.id = e.project with
    | none => exact absurd hpid (by simpa using List.find?_eq_none.mp hproj p hp)
    | some q =>
        refine ⟨q, ?_⟩
        simp [resolveEndpoint, hraw, hkey, hend, hactive, hproj]

/-- The project that is served is the endpoint's. -/
theorem resolve_project {auth : String} {e : Endpoint} {p : Project}
    (h : resolveEndpoint sha256 scan db auth = .ok (e, p)) :
    p ∈ db.projects ∧ p.id = e.project := by
  rw [resolveEndpoint] at h
  split at h
  · cases h
  · split at h
    · cases h
    · split at h
      · cases h
      · split at h
        · cases h
        · split at h
          · cases h
          · next hp =>
            cases h
            exact ⟨List.mem_of_find?_eq_some hp, by simpa using List.find?_some hp⟩

/-! ## The route -/

/-- The bound adapter, if there is one, has a file to serve. -/
def Servable (db : Db) (e : Endpoint) : Prop :=
  ∀ a, (e.adapter.bind fun a ↦ db.adapters.find? (·.id = a)) = some a →
    ∃ path, a.ggufPath = some path ∧ path ≠ ""

/-- The request passes the checks that are not about the key. -/
structure Acceptable (maxInputChars : Nat) (db : Db) (e : Endpoint) (r : ChatCompletionRequest) :
    Prop where
  size : totalChars r.messages ≤ maxInputChars
  images : ¬(r.stream = true ∧ hasImageParts r.messages = true)
  adapter : Servable db e

theorem adapterPath_isOk_iff {e : Endpoint} :
    (∃ path, adapterPath db e = .ok path) ↔ Servable db e := by
  rw [adapterPath, Servable]
  cases e.adapter.bind fun a ↦ db.adapters.find? (·.id = a) with
  | none => simp [pure, Except.pure]
  | some a =>
      cases hpath : a.ggufPath with
      | none => simp [hpath]
      | some path =>
          by_cases hne : path = ""
          · simp [hpath, hne, Option.filter]
          · simp [hpath, hne, Option.filter, pure, Except.pure]

theorem serve_isOk_iff {n : Nat} {e : Endpoint} {p : Project} {r : ChatCompletionRequest} :
    (∃ v, serve n db e p r = .ok v) ↔ r.model = e.slug ∧ Acceptable n db e r := by
  constructor
  · rintro ⟨v, hv⟩
    rw [serve] at hv
    split at hv
    · cases hv
    · next hslug =>
      split at hv
      · cases hv
      · next hsize =>
        split at hv
        · cases hv
        · next himages =>
          obtain ⟨path, hpath, -⟩ := bind_eq_ok.mp hv
          exact ⟨not_not.mp hslug, Nat.not_lt.mp hsize, by simpa using himages,
            adapterPath_isOk_iff.mp ⟨path, hpath⟩⟩
  · rintro ⟨hslug, hr⟩
    obtain ⟨path, hpath⟩ := adapterPath_isOk_iff.mpr hr.adapter
    have himages : (r.stream && hasImageParts r.messages) = false := by simpa using hr.images
    rw [serve, if_neg (not_not.mpr hslug), if_neg (Nat.not_lt.mpr hr.size),
      if_neg (by simp [himages]), hpath]
    exact ⟨_, rfl⟩

/-- The service is called for the endpoint and the project it was resolved to. -/
structure Handed (db : Db) (e : Endpoint) (p : Project) (r : ChatCompletionRequest) (v : Served) :
    Prop where
  endpoint : v.endpoint = e
  project : v.project = p
  projectId : v.call.args.projectId = if 0 < db.chunks p.id then some p.id else none
  endpointId : v.call.endpointId = if r.stream then some e.id else none

theorem serve_handed {n : Nat} {e : Endpoint} {p : Project} {r : ChatCompletionRequest} {v : Served}
    (h : serve n db e p r = .ok v) : Handed db e p r v := by
  rw [serve] at h
  split at h
  · cases h
  · split at h
    · cases h
    · split at h
      · cases h
      · obtain ⟨path, -, h⟩ := bind_eq_ok.mp h
        cases h
        cases hstream : r.stream with
        | true => exact ⟨rfl, rfl, rfl, by simp [hstream, ServiceCall.endpointId]⟩
        | false => exact ⟨rfl, rfl, rfl, by simp [hstream, ServiceCall.endpointId]⟩

/-- After any sequence of operations a request reaches the service for an endpoint if and only if
its key was handed out for that endpoint and is still active, the endpoint is active, the request
names its slug, and the request passes the checks that are not about the key.  The project
served is the endpoint's, and the service is handed the ids of these two. -/
theorem served_iff_authorized {s : Db × Issued}
    (hs : (keySystem isValid allowed sha256).Reachable s) (scan : Scan) (maxInputChars : Nat)
    (auth : String) (hf : Fresh sha256 s.2 fun k ↦ bearer auth = some k)
    (r : ChatCompletionRequest) (e : Endpoint) :
    ((∃ v, chatCompletions maxInputChars s.1 sha256 scan auth r = .ok v ∧ v.endpoint = e) ↔
      (∃ raw, bearer auth = some raw ∧ Authorizes s.1 s.2 raw e) ∧ e ∈ s.1.endpoints ∧
        e.status = .active ∧ r.model = e.slug ∧ Acceptable maxInputChars s.1 e r) ∧
    ∀ v, chatCompletions maxInputChars s.1 sha256 scan auth r = .ok v →
      v.project ∈ s.1.projects ∧ v.project.id = v.endpoint.project ∧
        Handed s.1 v.endpoint v.project r v := by
  have hinv := inv_of_reachable hs
  constructor
  · constructor
    · rintro ⟨v, hv, rfl⟩
      obtain ⟨⟨e, p⟩, hres, hserve⟩ := bind_eq_ok.mp hv
      obtain rfl := (serve_handed hserve).endpoint
      obtain ⟨raw, hraw, hauth, he, hactive⟩ := (hinv.resolve_iff scan hf).mp ⟨p, hres⟩
      obtain ⟨hslug, hr⟩ := serve_isOk_iff.mp ⟨v, hserve⟩
      exact ⟨⟨raw, hraw, hauth⟩, he, hactive, hslug, hr⟩
    · rintro ⟨⟨raw, hraw, hauth⟩, he, hactive, hslug, hr⟩
      obtain ⟨p, hres⟩ := (hinv.resolve_iff scan hf).mpr ⟨raw, hraw, hauth, he, hactive⟩
      obtain ⟨v, hserve⟩ := serve_isOk_iff.mpr ⟨hslug, hr⟩
      exact ⟨v, bind_eq_ok.mpr ⟨(e, p), hres, hserve⟩, (serve_handed hserve).endpoint⟩
  · intro v hv
    obtain ⟨⟨e, p⟩, hres, hserve⟩ := bind_eq_ok.mp hv
    have handed := serve_handed hserve
    obtain rfl := handed.endpoint
    obtain rfl := handed.project
    obtain ⟨hmem, hid⟩ := resolve_project hres
    exact ⟨hmem, hid, handed⟩

/-! ## A run -/

def firstToken : String := "q7XwT1mZk0vRb3nYcE5uHs9dJ2fLg8pA6iOoQjWzKxV"

def secondToken : String := "q7Xwb8UeN4rDt6yMq1aSg3hFv5jClP0zXw2kIoVnRsB"

/-- The digest, on the keys of the run. -/
def digest (k : String) : String :=
  if k = "adp_" ++ firstToken then
    "3b0b0e2d7cf87e2c5bafd77592969b1fbdd1d5fea2a7819f783bc6dd3a9de3d6"
  else if k = "adp_" ++ secondToken then
    "fc51dc2ebfe18000819a4d334a12a3114114c5e3b1209891fe19aea127acfe6d"
  else k

/-- A project with an endpoint and two keys of the same first characters; the second is
revoked. -/
def twinRun : List Op :=
  [.other [] (fun _ ↦ 1) (fun _ _ ↦ some .admin),
    .createProject "u" ⟨"3f2a-9c", "t", "Help Desk", none, .rag, "qwen2.5-3b-instruct"⟩,
    .createEndpoint "u" "3f2a-9c" "e",
    .createKey "u" "3f2a-9c" "k" "first" firstToken,
    .createKey "u" "3f2a-9c" "l" "second" secondToken,
    .revokeKey "u" "3f2a-9c" "l"]

def helpDesk : Endpoint :=
  ⟨"e", "3f2a-9c", "help-desk-3f2a9c", .active, none, "qwen2.5-3b-instruct"⟩

def firstRow : ApiKey := keyRow digest helpDesk "k" "first" firstToken

def secondRow : ApiKey := keyRow digest helpDesk "l" "second" secondToken

def twinIssued : Issued := [("adp_" ++ secondToken, secondRow), ("adp_" ++ firstToken, firstRow)]

/-- The header of a request with the first key. -/
def firstAuth : String := "Bearer adp_" ++ firstToken

/-- A request with the endpoint's slug. -/
def helpRequest (stream : Bool) (content : Content) : ChatCompletionRequest :=
  ⟨"help-desk-3f2a9c", [⟨.user, content⟩], none, none, none, stream, none, none⟩

theorem twinRun_reaches : ∃ s, (keySystem (fun _ ↦ true) "" digest).Reachable s ∧
    (s.1.endpoints, s.1.keys, s.1.adapters, s.2) =
      ([helpDesk], [{ secondRow with isActive := false }, firstRow], [], twinIssued) :=
  System.Reach.of_exec (l := twinRun) (by decide)

theorem bearer_firstAuth : bearer firstAuth = some ("adp_" ++ firstToken) := by decide

theorem fresh_twinIssued : Fresh digest twinIssued fun k ↦ bearer firstAuth = some k where
  distinct := by decide
  injective := by
    have hne : digest ("adp_" ++ firstToken) ≠ digest ("adp_" ++ secondToken) := by decide
    have hmem : ∀ k ∈ {k | k ∈ twinIssued.map Prod.fst ∨ bearer firstAuth = some k},
        k = "adp_" ++ firstToken ∨ k = "adp_" ++ secondToken := by
      rintro k (hk | hk)
      · rcases List.mem_cons.mp hk with rfl | hk
        · exact .inr rfl
        · exact .inl (List.mem_singleton.mp hk)
      · rw [bearer_firstAuth, Option.some.injEq] at hk
        exact .inl hk.symm
    intro k hk k' hk' heq
    rcases hmem k hk with rfl | rfl <;> rcases hmem k' hk' with rfl | rfl
    · rfl
    · exact absurd heq hne
    · exact absurd heq hne.symm
    · rfl

/-- The first key still serves, beside a revoked key of the same first characters. -/
theorem served_twinRun : ∃ s, (keySystem (fun _ ↦ true) "" digest).Reachable s ∧
    Fresh digest s.2 (fun k ↦ bearer firstAuth = some k) ∧
    ∃ v, chatCompletions 100000 s.1 digest .plain firstAuth
      (helpRequest false (.text (str "hello"))) = .ok v ∧ v.endpoint = helpDesk := by
  obtain ⟨⟨db, issued⟩, hreach, hs⟩ := twinRun_reaches
  simp only [Prod.mk.injEq] at hs
  obtain ⟨hend, hkeys, -, rfl⟩ := hs
  refine ⟨(db, twinIssued), hreach, fresh_twinIssued, ?_⟩
  refine (served_iff_authorized hreach .plain 100000 firstAuth fresh_twinIssued _ helpDesk).1.mpr
    ⟨⟨_, bearer_firstAuth, firstRow, by simp [twinIssued], rfl, by simp [hkeys], rfl⟩,
      by simp [hend], rfl, rfl, by decide, by decide, ?_⟩
  intro a ha
  cases ha

/-- A key that is in order does not get every request through: a streamed request with an image
is refused. -/
theorem twinRun_refuses_streamed_image : ∃ s, (keySystem (fun _ ↦ true) "" digest).Reachable s ∧
    Fresh digest s.2 (fun k ↦ bearer firstAuth = some k) ∧
    (∃ raw, bearer firstAuth = some raw ∧ Authorizes s.1 s.2 raw helpDesk) ∧
    helpDesk ∈ s.1.endpoints ∧ helpDesk.status = .active ∧
    (helpRequest true (.parts [.imageUrl (str "data:image/png;base64,")])).model = helpDesk.slug ∧
    ¬∃ v, chatCompletions 100000 s.1 digest .plain firstAuth
      (helpRequest true (.parts [.imageUrl (str "data:image/png;base64,")])) = .ok v := by
  obtain ⟨⟨db, issued⟩, hreach, hs⟩ := twinRun_reaches
  simp only [Prod.mk.injEq] at hs
  obtain ⟨hend, hkeys, -, rfl⟩ := hs
  refine ⟨(db, twinIssued), hreach, fresh_twinIssued,
    ⟨_, bearer_firstAuth, firstRow, by simp [twinIssued], rfl, by simp [hkeys], rfl⟩, by simp [hend],
    rfl, rfl, ?_⟩
  rintro ⟨v, hv⟩
  obtain ⟨⟨e, p⟩, -, hserve⟩ := bind_eq_ok.mp hv
  exact (serve_isOk_iff.mp ⟨v, hserve⟩).2.images (by decide)

end Adapta.Keys
