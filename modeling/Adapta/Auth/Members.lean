import Adapta.Api.Errors
import Adapta.Lib.System
import Adapta.Lib.Text

/-!
# Members of teams

`register`, `invite` and `accept_invite` of `adapta/api/v1/auth.py`, with `create_invitation` and
`accept_invitation` of `adapta/services/invitations.py`, are the requests that write orgs, teams,
users, memberships and invitations.  Here they are one transition system over the committed
database, in which any number of requests are under way at once.

A step is one query, one commit, or the expiry of time.  Transactions are READ COMMITTED: a query
sees what is committed at that moment, and a commit writes all rows of its transaction at once, or
raises when a unique constraint is violated.  An insert that is flushed before the commit waits for
other transactions with the same key, so checking the constraints at the commit gives the same
committed rows.

None of the requests deletes a row, so a table is a list and the id of a row is its place there.

What a validator makes of an email address is a parameter.  Hashes of passwords and the access
token of the caller are left out.
-/

namespace Adapta.Auth.Members

open Lib Api

abbrev OrgId := Nat
abbrev TeamId := Nat
abbrev UserId := Nat
abbrev InvitationId := Nat
abbrev ReqId := Nat

/-! ## Rows -/

inductive Role where
  | admin
  | member
  | viewer
deriving DecidableEq, Repr

structure Team where
  org : OrgId
  name : String
deriving DecidableEq, Repr

structure User where
  org : OrgId
  email : String
deriving DecidableEq, Repr

structure TeamMember where
  team : TeamId
  user : UserId
  role : Role
deriving DecidableEq, Repr

inductive InvitationStatus where
  | pending
  | accepted
  | revoked
deriving DecidableEq, Repr

structure Invitation where
  org : OrgId
  team : TeamId
  email : String
  role : Role
  token : String
  status : InvitationStatus
  invitedBy : UserId
  expiresAt : Nat
  acceptedAt : Option Nat
deriving DecidableEq, Repr

/-- The committed rows. -/
structure Db where
  /-- The names of the orgs. -/
  orgs : List String
  teams : List Team
  users : List User
  members : List TeamMember
  invitations : List Invitation
deriving DecidableEq, Repr

namespace Db

def empty : Db := { orgs := [], teams := [], users := [], members := [], invitations := [] }

variable (db : Db)

/-- `get_user_by_email`. -/
def getUserByEmail (email : String) : Option UserId := db.users.findIdx? fun u ↦ u.email = email

/-- `get_user_role_in_team`. -/
def getUserRoleInTeam (u : UserId) (t : TeamId) : Option Role :=
  (db.members.find? fun m ↦ m.user = u ∧ m.team = t).map TeamMember.role

/-- The query for an invitation by its token. -/
def invitationOf (token : String) : Option InvitationId :=
  db.invitations.findIdx? fun x ↦ x.token = token

/-- The commit of `register`. -/
def register (orgName email : String) : Option Db :=
  -- `orgs.name` and `users.email` are unique
  if orgName ∈ db.orgs ∨ (db.getUserByEmail email).isSome then none
  else some
    { db with
      orgs := db.orgs ++ [orgName]
      teams := db.teams ++ [⟨db.orgs.length, "default"⟩]
      users := db.users ++ [⟨db.orgs.length, email⟩]
      members := db.members ++ [⟨db.teams.length, db.users.length, .admin⟩] }

/-- The commit of `create_invitation`; tokens are unique. -/
def invite (x : Invitation) : Option Db :=
  if (db.invitationOf x.token).isSome then none
  else some { db with invitations := db.invitations ++ [x] }

/-- `UPDATE invitations … WHERE id = k`. -/
def setInvitation (k : InvitationId) (f : Invitation → Invitation) : Db :=
  { db with invitations := db.invitations.modify k f }

/-- The commit of an expired invitation. -/
def revoke (k : InvitationId) : Db := db.setInvitation k fun x ↦ { x with status := .revoked }

/-- The insert of a user that `accept_invitation` has created, if it has. -/
def addUser (x : Invitation) : Option UserId → Option Db
  | some _ => some db
  | none =>
      if (db.getUserByEmail x.email).isSome then none
      else some { db with users := db.users ++ [⟨x.org, x.email⟩] }

/-- The insert of a membership; `team_id` and `user_id` together are unique. -/
def addMember (m : TeamMember) : Option Db :=
  if db.members.any fun m' ↦ m'.team = m.team ∧ m'.user = m.user then none
  else some { db with members := db.members ++ [m] }

/-- The user that joins: found by the email, or the one created. -/
def joining (u : Option UserId) : UserId := u.getD db.users.length

/-- The commit of `accept_invitation`, for the invitation `x` that it has loaded. -/
def accept (k : InvitationId) (x : Invitation) (u : Option UserId) (join : Bool)
    (acceptedAt : Nat) : Option Db :=
  (db.addUser x u).bind fun db' ↦
    (if join then db'.addMember ⟨x.team, db.joining u, x.role⟩ else some db').map fun db'' ↦
      db''.setInvitation k fun y ↦ { y with status := .accepted, acceptedAt := some acceptedAt }

end Db

/-! ## Requests -/

inductive Req where
  | register (orgName email password : String)
  /-- `caller` is `current_user`, and `token` the one that will be drawn. -/
  | invite (caller : UserId) (team : TeamId) (email : String) (role : Option Role) (token : String)
  | acceptInvite (token password : String)
deriving DecidableEq, Repr

/-- Where a request is. -/
inductive ReqPc where
  | absent
  /-- `register`: the flush of the org. -/
  | registerOrg (orgName email : String)
  /-- The query of `create_user`. -/
  | registerUser (orgName email : String)
  | registerCommit (orgName email : String)
  /-- `invite`: `require_team_admin`. -/
  | inviteAdmin (caller : UserId) (team : TeamId) (email : String) (role : Role) (token : String)
  /-- The query for the team. -/
  | inviteTeam (caller : UserId) (team : TeamId) (email : String) (role : Role) (token : String)
  /-- `get_user_by_email`; the expiry of the invitation is set later. -/
  | inviteUser (x : Invitation)
  /-- The query for a membership of an existing user. -/
  | inviteMember (x : Invitation) (u : UserId)
  | inviteCommit (x : Invitation)
  /-- `accept_invitation`: the query for the invitation. -/
  | acceptInvitation (token : String)
  /-- The commit of an expired invitation. -/
  | acceptRevoke (k : InvitationId)
  /-- `get_user_by_email`. -/
  | acceptUser (k : InvitationId) (x : Invitation)
  /-- The query of `create_user`. -/
  | acceptCreate (k : InvitationId) (x : Invitation)
  /-- The query for a membership of the user, who is new if there is none. -/
  | acceptMember (k : InvitationId) (x : Invitation) (u : Option UserId)
  | acceptCommit (k : InvitationId) (x : Invitation) (u : Option UserId) (join : Bool)
      (acceptedAt : Nat)
  | ended (r : Except DomainError Unit)

/-- `INVITE_TTL_DAYS`, in seconds. -/
def inviteTtl : Nat := 7 * 86400

structure Config where
  /-- `validate_email`, which returns the normal form. -/
  validateEmail : String → Option String

/-- A request fails. -/
def ReqPc.fail (e : DomainError) : ReqPc := .ended (.error e)

def shortPassword : String := "Password must be at least 8 characters"

def invalidEmail : String := "Email address is not valid"

def orgExists : String := "An organization with this name already exists"

def emailRegistered (email : String) : String := "Email already registered: " ++ email

/-- What a handler does before its first query. -/
def Req.start (c : Config) : Req → ReqPc
  | .register orgName email password =>
      if password.length < 8 then .fail (.invalidRequest shortPassword)
      else if strip (str orgName) = [] then
        .fail (.invalidRequest "Organization name must not be empty")
      else
        match c.validateEmail email with
        | none => .fail (.invalidRequest invalidEmail)
        | some email => .registerOrg orgName email
  | .invite caller team email role token =>
      .inviteAdmin caller team email (role.getD .member) token
  | .acceptInvite token password =>
      if password.length < 8 then .fail (.invalidRequest shortPassword)
      else .acceptInvitation token

/-- Where a request goes on when its query returns. -/
def ReqPc.afterQuery (c : Config) (db : Db) (now : Nat) : ReqPc → Option ReqPc
  | .registerOrg orgName email =>
      if orgName ∈ db.orgs then some (.fail (.conflict orgExists))
      else some (.registerUser orgName email)
  | .registerUser orgName email =>
      if (db.getUserByEmail email).isSome then
        some (.fail (.conflict (emailRegistered email)))
      else some (.registerCommit orgName email)
  | .inviteAdmin caller team email role token =>
      match db.getUserRoleInTeam caller team with
      | none => some (.fail (.forbidden "Not a member of this team"))
      | some .admin =>
          match c.validateEmail email with
          | none => some (.fail (.invalidRequest invalidEmail))
          | some email => some (.inviteTeam caller team email role token)
      | some _ => some (.fail (.forbidden "Admin role required"))
  | .inviteTeam caller team email role token =>
      match db.teams[team]? with
      | none => some (.fail (.notFound ("Team not found: " ++ toString team)))
      | some t => some (.inviteUser
          { org := t.org, team := team, email := email, role := role, token := token
            status := .pending, invitedBy := caller, expiresAt := 0, acceptedAt := none })
  | .inviteUser x =>
      match db.getUserByEmail x.email with
      | some u => some (.inviteMember x u)
      | none => some (.inviteCommit { x with expiresAt := now + inviteTtl })
  | .inviteMember x u =>
      if (db.getUserRoleInTeam u x.team).isSome then
        some (.fail (.conflict (x.email ++ " is already a member of this team")))
      else some (.inviteCommit { x with expiresAt := now + inviteTtl })
  | .acceptInvitation token =>
      match db.invitationOf token with
      | none => some (.fail (.notFound "Invitation not found"))
      | some k =>
          db.invitations[k]?.map fun x ↦
            if x.status ≠ .pending then .fail (.invalidRequest "Invitation is no longer valid")
            else if x.expiresAt < now then .acceptRevoke k
            else .acceptUser k x
  | .acceptUser k x =>
      match db.getUserByEmail x.email with
      | some u => some (.acceptMember k x (some u))
      | none => some (.acceptCreate k x)
  | .acceptCreate k x =>
      if (db.getUserByEmail x.email).isSome then
        some (.fail (.conflict (emailRegistered x.email)))
      else some (.acceptMember k x none)
  | .acceptMember k x u =>
      -- a user of this transaction has no membership yet
      let join := u.all fun u ↦ (db.getUserRoleInTeam u x.team).isNone
      some (.acceptCommit k x u join now)
  | _ => none

/-- What a commit leaves, and how the request ends; `none` in the place of the rows when a
constraint is violated. -/
def ReqPc.commit (db : Db) : ReqPc → Option (Option Db × Except DomainError Unit)
  | .registerCommit orgName email =>
      match db.register orgName email with
      | some db' => some (some db', .ok ())
      | none => some (none, .error (.conflict orgExists))
  | .inviteCommit x =>
      match db.invite x with
      | some db' => some (some db', .ok ())
      | none => some (none, .error .other)
  | .acceptRevoke k => some (some (db.revoke k), .error (.invalidRequest "Invitation has expired"))
  | .acceptCommit k x u join acceptedAt =>
      match db.accept k x u join acceptedAt with
      | some db' => some (some db', .ok ())
      | none => some (none, .error .other)
  | _ => none

/-! ## The system -/

structure State where
  db : Db
  now : Nat
  reqs : ReqId → ReqPc

inductive Act where
  /-- Seconds go by. -/
  | tick (d : Nat)
  | call (i : ReqId) (r : Req)
  /-- The awaited query of a request returns. -/
  | query (i : ReqId)
  | commit (i : ReqId)
  /-- A request raises before its commit. -/
  | raise (i : ReqId)
deriving DecidableEq

def State.init : State := { db := .empty, now := 0, reqs := fun _ ↦ .absent }

def State.setPc (s : State) (i : ReqId) (pc : ReqPc) : State :=
  { s with reqs := Function.update s.reqs i pc }

/-- One step of the system. -/
def step (c : Config) (s : State) : Act → Option State
  | .tick d => some { s with now := s.now + d }
  | .call i r =>
      match s.reqs i with
      | .absent => some (s.setPc i (r.start c))
      | _ => none
  | .query i => ((s.reqs i).afterQuery c s.db s.now).map (s.setPc i)
  | .commit i =>
      ((s.reqs i).commit s.db).map fun x ↦ { s with db := x.1.getD s.db }.setPc i (.ended x.2)
  | .raise i =>
      match s.reqs i with
      | .absent => none
      | _ => some (s.setPc i (.fail .other))

/-- What is remembered of a run. -/
structure Log where
  /-- The teams that registrations have created, with their first users. -/
  founded : List (TeamId × UserId)
  /-- The invitations, with the memberships at the time of issue. -/
  issued : List (InvitationId × List TeamMember)
  /-- The memberships that acceptances have inserted, with their tokens. -/
  joined : List (String × TeamMember)

def Log.init : Log := { founded := [], issued := [], joined := [] }

/-- What a commit adds. -/
def Log.add (db : Db) (log : Log) : ReqPc → Log
  | .registerCommit orgName email =>
      if (db.register orgName email).isSome then
        { log with founded := (db.teams.length, db.users.length) :: log.founded }
      else log
  | .inviteCommit x =>
      if (db.invite x).isSome then
        { log with issued := (db.invitations.length, db.members) :: log.issued }
      else log
  | .acceptCommit k x u join acceptedAt =>
      if (db.accept k x u join acceptedAt).isSome ∧ join then
        { log with joined := (x.token, ⟨x.team, db.joining u, x.role⟩) :: log.joined }
      else log
  | _ => log

def Log.observe (s : State) : Act → Log → Log
  | .commit i, log => log.add s.db (s.reqs i)
  | _, log => log

/-- Registrations, invitations and acceptances. -/
def system (c : Config) : System (State × Log) Act :=
  System.ghost ⟨.init, step c⟩ .init Log.observe

end Adapta.Auth.Members
