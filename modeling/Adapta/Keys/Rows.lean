import Adapta.Api.Errors

/-!
# The rows behind a key

The tables a request passes through before it is served: projects, the endpoint of each, and
the keys of an endpoint (`adapta/db/models.py`).  A key is stored by its first eight characters
and its digest; the digest is a parameter.

Adapters, the number of indexed chunks and the members of teams are written by other parts of
the system.  They are read here as they stand.
-/

namespace Adapta.Keys

open Api

abbrev ProjectId := String
abbrev EndpointId := String
abbrev KeyId := String
abbrev AdapterId := String
abbrev TeamId := String
abbrev UserId := String

inductive Role where
  | admin
  | member
  | viewer
deriving DecidableEq, Repr

inductive ProjectType where
  | rag
  | finetune
deriving DecidableEq, Repr

inductive EndpointStatus where
  | pending
  | active
  | disabled
deriving DecidableEq, Repr

structure Project where
  id : ProjectId
  team : TeamId
  name : String
  systemPrompt : Option String
  type : ProjectType
  baseModel : String
deriving DecidableEq, Repr

structure Adapter where
  id : AdapterId
  project : ProjectId
  passed : Bool
  ggufPath : Option String
deriving DecidableEq, Repr

structure Endpoint where
  id : EndpointId
  project : ProjectId
  slug : String
  status : EndpointStatus
  adapter : Option AdapterId
  baseModel : String
deriving DecidableEq, Repr

structure ApiKey where
  id : KeyId
  endpoint : EndpointId
  name : String
  keyPrefix : String
  keyHash : String
  isActive : Bool
deriving DecidableEq, Repr

structure Db where
  projects : List Project
  endpoints : List Endpoint
  keys : List ApiKey
  /-- The newest first. -/
  adapters : List Adapter
  /-- `count_project_chunks`. -/
  chunks : ProjectId → Nat
  /-- `get_user_role_in_team`. -/
  role : UserId → TeamId → Option Role

def Db.empty : Db := ⟨[], [], [], [], fun _ ↦ 0, fun _ _ ↦ none⟩

/-! ## Lookups -/

namespace Db

variable (db : Db)

/-- `_get_project`. -/
def getProject (p : ProjectId) : Except DomainError Project :=
  match db.projects.find? (·.id = p) with
  | some project => .ok project
  | none => .error (.notFound ("Project not found: " ++ p))

/-- The endpoint of a project. -/
def endpointOf (p : ProjectId) : Option Endpoint := db.endpoints.find? (·.project = p)

/-- `_get_active_endpoint` and `_get_endpoint`, which do not look at the status. -/
def getEndpoint (p : ProjectId) : Except DomainError Endpoint :=
  match db.endpointOf p with
  | some e => .ok e
  | none => .error (.notFound "No endpoint for this project. Create one first.")

def requireTeamMember (u : UserId) (t : TeamId) : Except DomainError Role :=
  match db.role u t with
  | some r => .ok r
  | none => .error (.forbidden "Not a member of this team")

def requireTeamWriter (u : UserId) (t : TeamId) : Except DomainError Role := do
  let r ← db.requireTeamMember u t
  if r = .viewer then .error (.forbidden "Read-only (viewer) role cannot perform this action")
  else pure r

def requireTeamAdmin (u : UserId) (t : TeamId) : Except DomainError Unit := do
  let r ← db.requireTeamMember u t
  if r = .admin then pure () else .error (.forbidden "Admin role required")

end Db

/-! ## Keys -/

/-- `s[:n]`. -/
def clip (s : String) (n : Nat) : String := String.ofList (s.toList.take n)

/-- `generate_api_key`, for the token drawn: the full key, its first characters, its digest. -/
def generateApiKey (sha256 : String → String) (token : String) : String × String × String :=
  let raw := "adp_" ++ token
  (raw, clip raw 8, sha256 raw)

def verifyApiKey (sha256 : String → String) (raw storedHash : String) : Bool :=
  sha256 raw = storedHash

end Adapta.Keys
