import Mathlib.Data.Set.Function
import Adapta.Keys.Rows
import Adapta.Lib.System

/-!
# Who writes keys and endpoints

The routes that create and delete projects, endpoints and keys (`adapta/api/v1/projects.py`,
`endpoints.py`, `keys.py`), and the system of any sequence of them.  A refused request leaves
the tables as they are.  Ids and tokens are arguments: the code draws them at random, and the
tables refuse an id that is taken.

Two operations are no routes: a row of `endpoints` may be changed or deleted by hand (the foreign
key then deletes the keys), and everything else the tables depend on may change between any two
requests.
-/

namespace Adapta.Keys

open Api Lib

/-! ## Slugs -/

/-- What `lower` and the pattern `[^a-z0-9-]` make of a character.  Two characters outside ASCII
have a lower case within it: the dotted capital i, which becomes two characters, and the sign
for kelvin. -/
def slugChar (c : Char) : List Char :=
  if c.isLower || c.isDigit || c = '-' then [c]
  else if c.isUpper then [c.toLower]
  else if c = '\u0130' then ['i', '-']
  else if c = '\u212A' then ['k']
  else ['-']

/-- The slug of a project's endpoint. -/
def slugOf (p : Project) : String :=
  let dashed := ((p.name.toList.flatMap slugChar).dropWhile (· = '-')).reverse.dropWhile (· = '-')
  let base := dashed.reverse.take 55
  let suffix := (p.id.toList.filter (· ≠ '-')).take 8
  String.ofList ((if base = [] then "endpoint".toList else base) ++ '-' :: suffix)

/-! ## The routes -/

section

variable (isValid : String → Bool) (sha256 : String → String) (db : Db)

/-- `create_project`. -/
def createProject (user : UserId) (p : Project) (allowed : String) : Except DomainError Db := do
  let _ ← db.requireTeamWriter user p.team
  if isValid p.baseModel = false then
    .error (.invalidRequest ("Unknown base_model '" ++ p.baseModel ++ "'. Allowed values: " ++
      allowed ++ "."))
  else if db.projects.any (·.id = p.id) then .error .other
  else pure { db with
    projects := { p with systemPrompt := p.systemPrompt.filter (· ≠ "") } :: db.projects }

/-- The cascade of a deleted endpoint. -/
def dropEndpoints (gone : Endpoint → Bool) : Db :=
  { db with
    endpoints := db.endpoints.filter fun e ↦ !gone e
    keys := db.keys.filter fun k ↦ !db.endpoints.any fun e ↦ gone e && e.id = k.endpoint }

/-- `delete_project`, with its cascade. -/
def deleteProject (user : UserId) (p : ProjectId) : Except DomainError Db := do
  let project ← db.getProject p
  db.requireTeamAdmin user project.team
  let rest := dropEndpoints db (·.project = p)
  pure { rest with
    projects := rest.projects.filter (·.id ≠ p)
    adapters := rest.adapters.filter (·.project ≠ p)
    chunks := fun q ↦ if q = p then 0 else rest.chunks q }

/-- The adapter a new endpoint serves. -/
def adapterFor (project : Project) : Except DomainError (Option AdapterId) :=
  match project.type with
  | .rag => pure none
  | .finetune =>
      match db.adapters.find? fun a ↦ a.project = project.id ∧ a.passed with
      | some a => pure (some a.id)
      | none => .error (.invalidRequest ("No adapter has passed the eval gate yet. Import an " ++
          "adapter (POST /v1/projects/\x7bid\x7d/adapters) and wait for its status to be 'passed'."))

/-- `create_endpoint`. -/
def createEndpoint (user : UserId) (p : ProjectId) (id : EndpointId) : Except DomainError Db := do
  let project ← db.getProject p
  let _ ← db.requireTeamWriter user project.team
  if (db.endpointOf p).isSome then
    .error (.invalidRequest "Endpoint already exists for this project")
  else if project.type = .rag ∧ db.chunks p = 0 then
    .error (.invalidRequest "No indexed documents found. Upload and index files first.")
  else do
    let adapter ← adapterFor db project
    let slug := slugOf project
    if db.endpoints.any fun e ↦ e.id = id ∨ e.slug = slug then
      .error (.conflict "Endpoint slug already in use; could not create endpoint.")
    else pure { db with
      endpoints := ⟨id, p, slug, .active, adapter, project.baseModel⟩ :: db.endpoints }

/-- The row `create_key` adds. -/
def keyRow (e : Endpoint) (id : KeyId) (name token : String) : ApiKey :=
  let (_, keyPrefix, keyHash) := generateApiKey sha256 token
  { id, endpoint := e.id, name, keyPrefix, keyHash, isActive := true }

/-- `create_key`: the tables, and the full key with its row. -/
def createKey (user : UserId) (p : ProjectId) (id : KeyId) (name token : String) :
    Except DomainError (Db × String × ApiKey) := do
  let project ← db.getProject p
  let _ ← db.requireTeamWriter user project.team
  let e ← db.getEndpoint p
  if db.keys.any (·.id = id) then .error .other
  else
    let row := keyRow sha256 e id name token
    pure ({ db with keys := row :: db.keys }, (generateApiKey sha256 token).1, row)

/-- `revoke_key`. -/
def revokeKey (user : UserId) (p : ProjectId) (id : KeyId) : Except DomainError Db := do
  let project ← db.getProject p
  let _ ← db.requireTeamWriter user project.team
  let e ← db.getEndpoint p
  if db.keys.any fun k ↦ k.id = id ∧ k.endpoint = e.id then
    pure { db with keys := db.keys.map fun k ↦
      if k.id = id ∧ k.endpoint = e.id then { k with isActive := false } else k }
  else .error (.notFound "Key not found")

end

/-! ## The system -/

inductive Op where
  | createProject (user : UserId) (p : Project)
  | deleteProject (user : UserId) (p : ProjectId)
  | createEndpoint (user : UserId) (p : ProjectId) (id : EndpointId)
  | createKey (user : UserId) (p : ProjectId) (id : KeyId) (name token : String)
  | revokeKey (user : UserId) (p : ProjectId) (id : KeyId)
  /-- The status and the adapter of an endpoint are set. -/
  | setEndpoint (e : EndpointId) (status : EndpointStatus) (adapter : Option AdapterId)
  | dropEndpoint (e : EndpointId)
  /-- The rest of the system writes. -/
  | other (adapters : List Adapter) (chunks : ProjectId → Nat)
      (role : UserId → TeamId → Option Role)

section

variable (isValid : String → Bool) (allowed : String) (sha256 : String → String)

/-- The tables after an operation that is not refused. -/
def Op.run (db : Db) : Op → Except DomainError Db
  | .createProject user p => Keys.createProject isValid db user p allowed
  | .deleteProject user p => Keys.deleteProject db user p
  | .createEndpoint user p id => Keys.createEndpoint db user p id
  | .createKey user p id name token => (Keys.createKey sha256 db user p id name token).map Prod.fst
  | .revokeKey user p id => Keys.revokeKey db user p id
  | .setEndpoint id status adapter => pure { db with endpoints := db.endpoints.map fun e ↦
      if e.id = id then { e with status, adapter } else e }
  | .dropEndpoint id => pure (dropEndpoints db (·.id = id))
  | .other adapters chunks role => pure { db with adapters, chunks, role }

/-- The keys handed out so far, each with the row that was added for it. -/
abbrev Issued := List (String × ApiKey)

/-- What an operation hands out. -/
def Op.issues (db : Db) : Op → Issued
  | .createKey user p id name token =>
      match Keys.createKey sha256 db user p id name token with
      | .ok (_, raw, row) => [(raw, row)]
      | .error _ => []
  | _ => []

/-- Any sequence of operations; a refused one changes nothing. -/
def keyTables : System Db Op where
  init := .empty
  next db op := some ((op.run isValid allowed sha256 db).toOption.getD db)

/-- The tables, with the keys handed out. -/
def keySystem : System (Db × Issued) Op :=
  (keyTables isValid allowed sha256).ghost [] fun db op issued ↦ op.issues sha256 db ++ issued

end

end Adapta.Keys
