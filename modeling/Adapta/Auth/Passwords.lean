import Adapta.Auth.RateLimit
import Adapta.Auth.Tables
import Adapta.Lib.Base64

/-!
# Passwords and sessions

The passwords of the users whose rows `Members` keeps: `hash_password`, `verify_password`,
`authenticate_user`, the access tokens and `get_current_user` of `adapta/services/auth.py`, with
`login` and `change_password` of `adapta/api/v1/auth.py`.

A password is hashed by bcrypt, which takes 72 bytes at most and none that is zero.  It is given
the digest of the password, in base64, which is short and has no byte zero whatever the password is.

A new user's hash is written by the commit that inserts the user, with the password of that request;
accepting an invitation for an existing user leaves the hash as it is.  `change_password` reads the
row of the caller once, and writes the new hash in a commit of its own: any other request may come in
between, another change of the same password included.

A login asks the limiter first, for the address it comes from and for the email.  What the limiter
answers is an input of the login here, so any answer is allowed for; `RateLimit` says what it is.
Registering and accepting an invitation ask it too, which is left out.

bcrypt, the digest and the signature of tokens are parameters (`Crypto`).
-/

namespace Adapta.Auth.Passwords

open Lib Api
open Members (UserId OrgId ReqId)

/-! ## Hashes and tokens -/

/-- The claims of an access token. -/
structure Payload where
  sub : Option UserId
  org : OrgId
  exp : Nat
deriving DecidableEq, Repr

/-- What bcrypt takes. -/
def Proper (p : List UInt8) : Prop := p.length ≤ 72 ∧ 0 ∉ p

structure Crypto where
  sha256 : String → List UInt8
  length_sha256 : ∀ s, (sha256 s).length = 32
  hashpw : List UInt8 → String → String
  /-- `bcrypt.checkpw`, which raises for a string that is no hash. -/
  checkpw : List UInt8 → String → Option Bool
  checkpw_hashpw : ∀ {p q : List UInt8}, Proper p → Proper q → ∀ salt,
    checkpw p (hashpw q salt) = some (decide (p = q))
  jwtEncode : Payload → String
  /-- The signature of a token, checked; the expiry is not. -/
  jwtDecode : String → Option Payload

section

variable (C : Crypto)

/-- `_prehash`. -/
def prehash (plain : String) : List UInt8 :=
  (Base64.encode (C.sha256 plain)).map fun c ↦ UInt8.ofNat c.toNat

def hashPassword (plain salt : String) : String := C.hashpw (prehash C plain) salt

def verifyPassword (plain hashed : String) : Bool := (C.checkpw (prehash C plain) hashed).getD false

/-- `create_access_token`, with the expiry of a token in seconds. -/
def createAccessToken (expire now : Nat) (u : UserId) (org : OrgId) : String :=
  C.jwtEncode ⟨some u, org, now + expire⟩

def invalidToken : DomainError := .unauthorized "Invalid or expired token"

def decodeAccessToken (now : Nat) (token : String) : Except DomainError Payload :=
  match C.jwtDecode token with
  | none => .error invalidToken
  | some p => if p.exp < now then .error invalidToken else .ok p

/-- The digest has 32 bytes, which are 44 characters of ASCII. -/
theorem proper_prehash (plain : String) : Proper (prehash C plain) := by
  refine ⟨?_, fun h ↦ ?_⟩
  · rw [prehash, List.length_map, Base64.length_encode, C.length_sha256]
    decide
  · obtain ⟨c, hc, hzero⟩ := List.mem_map.mp h
    obtain ⟨hpos, hlt⟩ := Base64.toNat_mem_encode hc
    have hnat := congrArg UInt8.toNat hzero
    rw [UInt8.toNat_ofNat', UInt8.toNat_zero] at hnat
    omega

/-- Passwords are told apart by their digests. -/
theorem prehash_inj {p q : String} : prehash C p = prehash C q ↔ C.sha256 p = C.sha256 q := by
  refine ⟨fun h ↦ Base64.encode_injective ?_, fun h ↦ by rw [prehash, prehash, h]⟩
  have hcode : ∀ s, (prehash C s).map (fun b ↦ Char.ofNat b.toNat) = Base64.encode (C.sha256 s) := by
    intro s
    rw [prehash, List.map_map]
    refine (List.map_congr_left fun c hc ↦ ?_).trans (List.map_id _)
    have hlt := (Base64.toNat_mem_encode hc).2
    rw [Function.comp_apply, UInt8.toNat_ofNat', Nat.mod_eq_of_lt (by omega), Char.ofNat_toNat]
    rfl
  rw [← hcode p, ← hcode q, h]

/-- **A password of any length is verified as a whole.** -/
theorem verifyPassword_hashPassword (p q salt : String) :
    verifyPassword C p (hashPassword C q salt) = decide (C.sha256 p = C.sha256 q) := by
  rw [verifyPassword, hashPassword, C.checkpw_hashpw (proper_prehash C p) (proper_prehash C q),
    Option.getD_some]
  exact decide_eq_decide.mpr (prehash_inj C)

/-! ## Rate limits -/

/-- How the calls of `enforce` in `enforce_auth` end. -/
structure Limits where
  ip : Verdict
  email : Verdict
deriving DecidableEq, Repr

/-- What a call of `enforce` raises. -/
def enforced (c : RateConfig) : Verdict → Except DomainError Unit
  | .allowed => .ok ()
  | .limited => .error (.rateLimited ("Too many attempts. Try again in up to " ++
      toString c.authRateLimitWindowSeconds ++ " seconds."))
  | .cancelled => .error .other

/-- `enforce_auth`, which does not count an email that is empty. -/
def enforceAuth (c : RateConfig) (limits : Limits) (email : String) : Except DomainError Unit := do
  enforced c limits.ip
  if email ≠ "" then enforced c limits.email

theorem enforced_ok {c : RateConfig} {v : Verdict} : enforced c v = .ok () ↔ v = .allowed := by
  cases v with
  | allowed => simp [enforced]
  | limited => simp [enforced]
  | cancelled => simp [enforced]

/-- What it takes to be let through. -/
theorem enforceAuth_ok {c : RateConfig} {limits : Limits} {email : String} :
    enforceAuth c limits email = .ok () ↔
      limits.ip = .allowed ∧ (email ≠ "" → limits.email = .allowed) := by
  have hip := enforced_ok (c := c) (v := limits.ip)
  rw [enforceAuth, ← hip]
  cases h : enforced c limits.ip with
  | error e => simp [bind, Except.bind]
  | ok x =>
      by_cases hemail : email = ""
      · simp [hemail, bind, Except.bind, pure, Except.pure]
      · simp [hemail, bind, Except.bind, enforced_ok]

/-! ## Requests -/

/-- Where a `change_password` is. -/
inductive ChangePc where
  | absent
  /-- The row was read, and the current password verified, at the time `since`. -/
  | commit (u : UserId) (current new : String) (since : Nat)
  | ended (r : Except DomainError Unit)

structure State where
  members : Members.State
  /-- `users.hashed_password`, by the user. -/
  hashes : List String
  /-- `users.is_active`. -/
  active : UserId → Bool
  /-- The password in a request to register or to accept an invitation. -/
  passwords : ReqId → String
  changes : ReqId → ChangePc

structure Config where
  members : Members.Config
  rate : RateConfig
  /-- `access_token_expire_minutes`, in seconds. -/
  expire : Nat

namespace State

variable (s : State)

def hash (u : UserId) : String := s.hashes.getD u ""

/-- `authenticate_user`. -/
def authenticateUser (email password : String) : Except DomainError UserId :=
  match s.members.db.getUserByEmail email with
  | none => .error (.unauthorized "Incorrect email or password")
  | some u =>
      if verifyPassword C password (s.hash u) = false then
        .error (.unauthorized "Incorrect email or password")
      else if s.active u = false then .error (.unauthorized "User account is disabled")
      else .ok u

/-- `login`: an address that is not valid is one that nobody has. -/
def login (c : Config) (limits : Limits) (email password : String) :
    Except DomainError (UserId × String) := do
  let email := (c.members.validateEmail email).getD email
  enforceAuth c.rate limits email
  let u ← s.authenticateUser C email password
  let org := (s.members.db.users[u]?).elim 0 Members.User.org
  pure (u, createAccessToken C c.expire s.members.now u org)

/-- `get_current_user`. -/
def getCurrentUser (token : String) : Except DomainError UserId := do
  let p ← decodeAccessToken C s.members.now token
  match p.sub with
  | none => .error invalidToken
  | some u =>
      if s.members.db.users.length ≤ u then .error (.notFound "User not found")
      else if s.active u = false then .error (.unauthorized "User account is disabled")
      else .ok u

/-- `change_password` up to its commit. -/
def changePassword (token current new : String) : ChangePc :=
  match s.getCurrentUser C token with
  | .error e => .ended (.error e)
  | .ok u =>
      if verifyPassword C current (s.hash u) = false then
        .ended (.error (.invalidRequest "Current password is incorrect."))
      else if new.length < 8 then .ended (.error (.invalidRequest Members.shortPassword))
      else .commit u current new s.members.now

def setChange (i : ReqId) (pc : ChangePc) : State :=
  { s with changes := Function.update s.changes i pc }

/-- The passwords in memory after a step of the other requests. -/
def remember : Members.Act → ReqId → String
  | .call i (.register _ _ password) => Function.update s.passwords i password
  | .call i (.acceptInvite _ password) => Function.update s.passwords i password
  | _ => s.passwords

/-- The password of the user that a step inserts, if it inserts one. -/
def created (db : Members.Db) : Members.Act → Option String
  | .commit i =>
      if s.members.db.users.length < db.users.length then some (s.passwords i) else none
  | _ => none

end State

inductive Act where
  /-- A step of the requests that write users, teams and invitations. -/
  | members (a : Members.Act) (salt : String)
  | login (limits : Limits) (email password : String)
  | change (i : ReqId) (token current new : String)
  | changeCommit (i : ReqId) (salt : String)
  /-- The commit fails. -/
  | changeRaise (i : ReqId)
  /-- An account is disabled or enabled by hand. -/
  | setActive (u : UserId) (b : Bool)

def State.init : State :=
  { members := .init, hashes := [], active := fun _ ↦ true, passwords := fun _ ↦ ""
    changes := fun _ ↦ .absent }

def step (c : Config) (s : State) : Act → Option State
  | .members a salt => (Members.step c.members s.members a).map fun m ↦
      { s with
        members := m
        hashes := s.hashes ++ ((s.created m.db a).map fun p ↦ hashPassword C p salt).toList
        passwords := s.remember a }
  | .login _ _ _ => some s
  | .change i token current new =>
      match s.changes i with
      | .absent => some (s.setChange i (s.changePassword C token current new))
      | _ => none
  | .changeCommit i salt =>
      match s.changes i with
      | .commit u _ new _ => some
          { s.setChange i (.ended (.ok ())) with hashes := s.hashes.set u (hashPassword C new salt) }
      | _ => none
  | .changeRaise i =>
      match s.changes i with
      | .commit _ _ _ _ => some (s.setChange i (.ended (.error .other)))
      | _ => none
  | .setActive u b => some { s with active := Function.update s.active u b }

/-! ## What is remembered of a run -/

/-- A login that succeeded. -/
structure Login where
  user : UserId
  password : String
  time : Nat
deriving DecidableEq, Repr

/-- A password is set. -/
inductive Event where
  | created (u : UserId) (password : String)
  | changed (u : UserId) (current new : String) (since : Nat)
deriving DecidableEq, Repr

def Event.user : Event → UserId
  | .created u _ => u
  | .changed u _ _ _ => u

def Event.password : Event → String
  | .created _ p => p
  | .changed _ _ p _ => p

structure Ledger where
  /-- The newest first. -/
  events : List Event
  logins : List Login

def Ledger.observe (c : Config) (s : State) (a : Act) (l : Ledger) : Ledger :=
  match a with
  | .members a _ =>
      match (Members.step c.members s.members a).bind fun m ↦ s.created m.db a with
      | none => l
      | some p => { l with events := .created s.members.db.users.length p :: l.events }
  | .login limits email password =>
      match s.login C c limits email password with
      | .error _ => l
      | .ok (u, _) => { l with logins := ⟨u, password, s.members.now⟩ :: l.logins }
  | .changeCommit i _ =>
      match s.changes i with
      | .commit u current new since => { l with events := .changed u current new since :: l.events }
      | _ => l
  | .change _ _ _ _ | .changeRaise _ | .setActive _ _ => l

def system (c : Config) : System (State × Ledger) Act :=
  System.ghost ⟨.init, step C c⟩ ⟨[], []⟩ (Ledger.observe C c)

/-- Signatures are not forged: a token that is presented is one that a login has returned. -/
def Unforged (c : Config) (x : State × Ledger) : Act → Prop
  | .change _ token _ _ => ∀ p ∈ C.jwtDecode token,
      ∃ y ∈ x.2.logins, p.sub = some y.user ∧ p.exp = y.time + c.expire
  | _ => True

instance (c : Config) (x : State × Ledger) (a : Act) : Decidable (Unforged C c x a) :=
  match a with
  | .change _ token _ _ => inferInstanceAs (Decidable (∀ p ∈ C.jwtDecode token, _))
  | .members _ _ | .login _ _ _ | .changeCommit _ _ | .changeRaise _ | .setActive _ _ =>
      inferInstanceAs (Decidable True)

/-! ## Users are added one by one -/

theorem users_accept {db db' : Members.Db} {k : Members.InvitationId} {x : Members.Invitation}
    {u : Option UserId} {join : Bool} {time : Nat} (h : db.accept k x u join time = some db') :
    db'.users = db.users ∨ ∃ w, db'.users = db.users ++ [w] := by
  obtain ⟨db₁, db₂, h₁, h₂, rfl⟩ := Members.Db.accept_cases h
  have husers : db₂.users = db₁.users := by
    rcases h₂ with ⟨-, h₂⟩ | ⟨-, rfl⟩
    · rw [(Members.Db.addMember_cases h₂).2]
    · rfl
  change db₂.users = _ ∨ ∃ w, db₂.users = _
  rw [husers]
  rcases Members.Db.addUser_cases h₁ with ⟨i, -, rfl⟩ | ⟨-, -, rfl⟩
  · exact .inl rfl
  · exact .inr ⟨_, rfl⟩

theorem users_commit {db : Members.Db} {pc : Members.ReqPc}
    {r : Option Members.Db × Except DomainError Unit} (h : pc.commit db = some r) :
    (r.1.getD db).users = db.users ∨ ∃ w, (r.1.getD db).users = db.users ++ [w] := by
  rcases Members.ReqPc.commit_cases .init h with ⟨hr, -⟩ | ⟨db', hr, hdb⟩
  · rw [hr]
    exact .inl rfl
  · rw [hr, Option.getD_some]
    rcases hdb with ⟨_, _, -, hdb⟩ | ⟨_, -, hdb⟩ | ⟨_, -, rfl⟩ | ⟨_, _, _, _, _, -, hdb⟩
    · rw [(Members.Db.register_cases hdb).2]
      exact .inr ⟨_, rfl⟩
    · rw [(Members.Db.invite_cases hdb).2]
      exact .inl rfl
    · exact .inl rfl
    · exact users_accept hdb

/-- Time does not go back, and only a commit inserts a user. -/
theorem members_step {c : Members.Config} {m m' : Members.State} {a : Members.Act}
    (h : Members.step c m a = some m') : m.now ≤ m'.now ∧
      (m'.db.users = m.db.users ∨ ∃ i w, a = .commit i ∧ m'.db.users = m.db.users ++ [w]) := by
  cases a with
  | tick d =>
      cases h
      exact ⟨Nat.le_add_right _ _, .inl rfl⟩
  | call i r =>
      simp only [Members.step] at h
      split at h
      · cases h
        exact ⟨le_rfl, .inl rfl⟩
      · cases h
  | query i =>
      obtain ⟨pc, -, rfl⟩ := Option.map_eq_some_iff.mp h
      exact ⟨le_rfl, .inl rfl⟩
  | commit i =>
      obtain ⟨r, hr, rfl⟩ := Option.map_eq_some_iff.mp h
      refine ⟨le_rfl, ?_⟩
      rcases users_commit hr with husers | ⟨w, husers⟩
      · exact .inl husers
      · exact .inr ⟨i, w, rfl, husers⟩
  | raise i =>
      simp only [Members.step] at h
      split at h
      · cases h
      · cases h
        exact ⟨le_rfl, .inl rfl⟩

/-- A step adds a password with each user it inserts. -/
theorem created_cases {c : Members.Config} {s : State} {m : Members.State} {a : Members.Act}
    (h : Members.step c s.members a = some m) :
    s.created m.db a = none ∧ m.db.users.length = s.members.db.users.length ∨
      ∃ p, s.created m.db a = some p ∧
        m.db.users.length = s.members.db.users.length + 1 := by
  rcases (members_step h).2 with husers | ⟨i, w, rfl, husers⟩
  · refine .inl ⟨?_, by rw [husers]⟩
    cases a with
    | commit i => simp [State.created, husers]
    | tick | call | query | raise => rfl
  · exact .inr ⟨s.passwords i, by simp [State.created, husers], by simp [husers]⟩

/-! ## The hash of a user is that of the last password -/

/-- The password that was set last. -/
def newest (events : List Event) (u : UserId) : Option String :=
  (events.find? (·.user = u)).map Event.password

/-- Each user has a hash, of the password that was set last. -/
structure Hashed (s : State) (l : Ledger) : Prop where
  length : s.hashes.length = s.members.db.users.length
  hash : ∀ u < s.members.db.users.length, ∃ p salt, newest l.events u = some p ∧
    s.hashes[u]? = some (hashPassword C p salt)

variable {C} {c : Config} {s s' : State} {l : Ledger} {u : UserId}

theorem newest_cons (e : Event) (events : List Event) : newest (e :: events) u =
    if e.user = u then some e.password else newest events u := by
  by_cases he : e.user = u
  · simp [newest, he]
  · simp [newest, he]

theorem Hashed.insert (h : Hashed C s l) {m : Members.State} {passwords : ReqId → String}
    (hlength : m.db.users.length = s.members.db.users.length + 1) (p salt : String) :
    Hashed C { s with
        members := m
        hashes := s.hashes ++ [hashPassword C p salt]
        passwords := passwords }
      { l with events := .created s.members.db.users.length p :: l.events } where
  length := by rw [List.length_append, h.length, hlength, List.length_singleton]
  hash u hu := by
    rw [newest_cons]
    change u < m.db.users.length at hu
    by_cases hnew : s.members.db.users.length = u
    · refine ⟨p, salt, if_pos hnew, ?_⟩
      rw [← hnew, ← h.length, List.getElem?_concat_length]
    · have hlt : u < s.members.db.users.length := by omega
      obtain ⟨q, salt', hq, hhash⟩ := h.hash u hlt
      refine ⟨q, salt', (if_neg hnew).trans hq, ?_⟩
      rw [List.getElem?_append_left (h.length.symm ▸ hlt), hhash]

theorem Hashed.change (h : Hashed C s l) {changes : ReqId → ChangePc} (v : UserId)
    (current new salt : String) (since : Nat) :
    Hashed C { s with changes := changes, hashes := s.hashes.set v (hashPassword C new salt) }
      { l with events := .changed v current new since :: l.events } where
  length := (List.length_set ..).trans h.length
  hash u hu := by
    change u < s.members.db.users.length at hu
    rw [newest_cons]
    by_cases hv : v = u
    · refine ⟨new, salt, if_pos hv, ?_⟩
      rw [← hv, List.getElem?_set_self (by rw [h.length, hv]; exact hu)]
    · obtain ⟨q, salt', hq, hhash⟩ := h.hash u hu
      refine ⟨q, salt', (if_neg hv).trans hq, ?_⟩
      rw [List.getElem?_set_ne hv, hhash]

theorem Hashed.step {a : Act} (h : Hashed C s l) (hn : step C c s a = some s') :
    Hashed C s' (l.observe C c s a) := by
  cases a with
  | members a salt =>
      obtain ⟨m, hm, rfl⟩ := Option.map_eq_some_iff.mp hn
      simp only [Ledger.observe, hm, Option.bind_some]
      rcases created_cases hm with ⟨hnone, hlength⟩ | ⟨p, hsome, hlength⟩
      · rw [hnone]
        exact ⟨by simpa using h.length.trans hlength.symm,
          fun u hu ↦ by simpa using h.hash u (hlength ▸ hu)⟩
      · rw [hsome]
        exact h.insert hlength p salt
  | login limits email password =>
      cases hn
      simp only [Ledger.observe]
      split
      · exact h
      · exact ⟨h.length, h.hash⟩
  | change i token current new =>
      simp only [Passwords.step] at hn
      split at hn
      · cases hn
        exact ⟨h.length, h.hash⟩
      · cases hn
  | changeCommit i salt =>
      simp only [Passwords.step] at hn
      split at hn
      · next v current new since hpc =>
          cases hn
          simp only [Ledger.observe, hpc]
          exact h.change v current new salt since
      · cases hn
  | changeRaise i =>
      simp only [Passwords.step] at hn
      split at hn
      · cases hn
        exact ⟨h.length, h.hash⟩
      · cases hn
  | setActive v b =>
      cases hn
      exact ⟨h.length, h.hash⟩

/-- The hash of a user verifies the password that was set last, and those with its digest. -/
theorem Hashed.verify (h : Hashed C s l) (hu : u < s.members.db.users.length) (password : String) :
    verifyPassword C password (s.hash u) = true ↔
      ∃ p, newest l.events u = some p ∧ C.sha256 password = C.sha256 p := by
  obtain ⟨p, salt, hp, hhash⟩ := h.hash u hu
  rw [State.hash, List.getD_eq_getElem?_getD, hhash, Option.getD_some, verifyPassword_hashPassword,
    decide_eq_true_eq, hp]
  simp

theorem hashed_init : Hashed C .init ⟨[], []⟩ where
  length := rfl
  hash u hu := by cases hu

theorem hashed_of_reach {g : State × Ledger → Act → Prop} {x : State × Ledger}
    (h : (system C c).Reach g x) : Hashed C x.1 x.2 := by
  refine h.invariant (P := fun x ↦ Hashed C x.1 x.2) hashed_init fun x a x' hx _ hn ↦ ?_
  obtain ⟨s', hs', rfl⟩ := Option.map_eq_some_iff.mp hn
  exact hx.step hs'

theorem lt_of_getUserByEmail {db : Members.Db} {email : String}
    (h : db.getUserByEmail email = some u) : u < db.users.length := by
  obtain ⟨w, hw, -⟩ := Members.Db.getUserByEmail_some h
  exact (List.getElem?_eq_some_iff.mp hw).1

theorem authenticateUser_ok {email password : String} :
    s.authenticateUser C email password = .ok u ↔
      s.members.db.getUserByEmail email = some u ∧
        verifyPassword C password (s.hash u) = true ∧ s.active u = true := by
  rw [State.authenticateUser]
  cases hv : s.members.db.getUserByEmail email with
  | none => simp
  | some v =>
      simp only
      split
      · next hverify =>
          simp only [reduceCtorEq, Option.some.injEq, false_iff, not_and]
          rintro rfl h
          rw [hverify] at h
          cases h
      · next hverify =>
          split
          · next hactive =>
              simp only [reduceCtorEq, Option.some.injEq, false_iff, not_and]
              rintro rfl - h
              rw [hactive] at h
              cases h
          · next hactive =>
              simp only [Except.ok.injEq, Option.some.injEq]
              constructor
              · rintro rfl
                exact ⟨rfl, by simpa using hverify, by simpa using hactive⟩
              · exact fun h ↦ h.1

/-- The user that a login is for, which the limiter lets through and whose password it presents. -/
theorem login_ok {limits : Limits} {email password : String} :
    (∃ token, s.login C c limits email password = .ok (u, token)) ↔
      enforceAuth c.rate limits ((c.members.validateEmail email).getD email) = .ok () ∧
        s.authenticateUser C ((c.members.validateEmail email).getD email) password = .ok u := by
  simp only [State.login]
  cases enforceAuth c.rate limits ((c.members.validateEmail email).getD email) with
  | error e => simp [bind, Except.bind]
  | ok x =>
      cases s.authenticateUser C ((c.members.validateEmail email).getD email) password with
      | error e => simp [bind, Except.bind]
      | ok v => simp [bind, Except.bind, pure, Except.pure]

/-- **A login succeeds exactly with the password that was set last.**  In any interleaving of
registrations, acceptances, logins and changes, a login that is not limited succeeds if the account
is enabled and the password has the digest of the one its user registered with, or has changed it to
since. -/
theorem login_iff {x : State × Ledger} (h : (system C c).Reachable x) (limits : Limits)
    (email password : String) (u : UserId) :
    (∃ token, x.1.login C c limits email password = .ok (u, token)) ↔
      (limits.ip = .allowed ∧
        ((c.members.validateEmail email).getD email ≠ "" → limits.email = .allowed)) ∧
      x.1.members.db.getUserByEmail ((c.members.validateEmail email).getD email) = some u ∧
        (∃ p, newest x.2.events u = some p ∧ C.sha256 password = C.sha256 p) ∧
        x.1.active u = true := by
  rw [login_ok, enforceAuth_ok, authenticateUser_ok]
  refine and_congr_right fun _ ↦ and_congr_right fun hu ↦ and_congr_left fun _ ↦ ?_
  exact (hashed_of_reach h).verify (lt_of_getUserByEmail hu) password

/-! ## Who may change a password -/

/-- A password with the digest of one that was set for the user. -/
def Known (C : Crypto) (events : List Event) (u : UserId) (password : String) : Prop :=
  ∃ e ∈ events, e.user = u ∧ C.sha256 password = C.sha256 e.password

/-- A login of the user, with a password set before, whose token has not expired at that time. -/
def Opened (C : Crypto) (c : Config) (logins : List Login) (events : List Event) (u : UserId)
    (time : Nat) : Prop :=
  ∃ y ∈ logins, y.user = u ∧ Known C events u y.password ∧ y.time ≤ time ∧
    time ≤ y.time + c.expire

/-- A password is set when its user is created, or by a request that presents a password set
before, in a session that was opened with a password set before. -/
def Justified (C : Crypto) (c : Config) (logins : List Login) : List Event → Prop
  | [] => True
  | .created u _ :: events => (∀ e ∈ events, e.user ≠ u) ∧ Justified C c logins events
  | .changed u current _ since :: events => Known C events u current ∧
      Opened C c logins events u since ∧ Justified C c logins events

variable {events events' : List Event} {logins logins' : List Login} {password : String}
  {time : Nat}

theorem Known.mono (h : Known C events u password) (hsub : events ⊆ events') :
    Known C events' u password := by
  obtain ⟨e, he, hu, hp⟩ := h
  exact ⟨e, hsub he, hu, hp⟩

theorem Opened.mono (h : Opened C c logins events u time) (hl : logins ⊆ logins')
    (he : events ⊆ events') : Opened C c logins' events' u time := by
  obtain ⟨y, hy, hu, hknown, hle, hge⟩ := h
  exact ⟨y, hl hy, hu, hknown.mono he, hle, hge⟩

theorem Justified.mono (h : Justified C c logins events) (hl : logins ⊆ logins') :
    Justified C c logins' events := by
  induction events with
  | nil => trivial
  | cons e events ih =>
      cases e with
      | created v p => exact ⟨h.1, ih h.2⟩
      | changed v current new since => exact ⟨h.1, h.2.1.mono hl fun _ h ↦ h, ih h.2.2⟩

theorem known_of_newest {p : String} (h : newest events u = some p)
    (hp : C.sha256 password = C.sha256 p) : Known C events u password := by
  obtain ⟨e, he, rfl⟩ := Option.map_eq_some_iff.mp h
  exact ⟨e, List.mem_of_find?_eq_some he, by simpa using List.find?_some he, hp⟩

structure Sessions (C : Crypto) (c : Config) (s : State) (l : Ledger) : Prop where
  users : ∀ e ∈ l.events, e.user < s.members.db.users.length
  logins : ∀ y ∈ l.logins, Known C l.events y.user y.password ∧ y.time ≤ s.members.now
  /-- A change that is under way was accepted. -/
  changes : ∀ {i v current new since}, s.changes i = .commit v current new since →
    v < s.members.db.users.length ∧ Known C l.events v current ∧
      Opened C c l.logins l.events v since
  events : Justified C c l.logins l.events

theorem getCurrentUser_ok {token : String} (h : s.getCurrentUser C token = .ok u) :
    u < s.members.db.users.length ∧ ∃ p, C.jwtDecode token = some p ∧ p.sub = some u ∧
      s.members.now ≤ p.exp := by
  simp only [State.getCurrentUser, decodeAccessToken] at h
  cases hp : C.jwtDecode token with
  | none =>
      rw [hp] at h
      cases h
  | some p =>
      rw [hp] at h
      simp only at h
      split at h
      · cases h
      · next hexp =>
          simp only [bind, Except.bind] at h
          cases hsub : p.sub with
          | none =>
              rw [hsub] at h
              cases h
          | some v =>
              rw [hsub] at h
              simp only at h
              split at h
              · cases h
              · next hlt =>
                  split at h
                  · cases h
                  · cases h
                    exact ⟨Nat.lt_of_not_le hlt, p, rfl, hsub, Nat.le_of_not_lt hexp⟩

/-- A change that goes on to its commit was asked for with the password of the caller. -/
theorem changePassword_commit {token current new current' new' : String} {since : Nat}
    (h : s.changePassword C token current new = .commit u current' new' since) :
    s.getCurrentUser C token = .ok u ∧ verifyPassword C current (s.hash u) = true ∧
      current' = current ∧ new' = new ∧ since = s.members.now ∧ 8 ≤ new.length := by
  simp only [State.changePassword] at h
  split at h
  · cases h
  · next v hv =>
      split at h
      · cases h
      · next hverify =>
          split at h
          · cases h
          · next hlength =>
              cases h
              exact ⟨hv, by simpa using hverify, rfl, rfl, rfl, by omega⟩

namespace Sessions

theorem init : Sessions C c .init ⟨[], []⟩ where
  users e he := by cases he
  logins y hy := by cases hy
  changes hpc := by cases hpc
  events := trivial

/-- Time goes by, and users are inserted. -/
theorem later (h : Sessions C c s l) {m : Members.State} {hashes : List String}
    {passwords : ReqId → String} (hnow : s.members.now ≤ m.now)
    (hlength : s.members.db.users.length ≤ m.db.users.length) :
    Sessions C c { s with members := m, hashes := hashes, passwords := passwords } l where
  users e he := (h.users e he).trans_le hlength
  logins y hy := ⟨(h.logins y hy).1, (h.logins y hy).2.trans hnow⟩
  changes hpc := ⟨(h.changes hpc).1.trans_le hlength, (h.changes hpc).2⟩
  events := h.events

theorem event (h : Sessions C c s l) {e : Event} {hashes : List String}
    (hu : e.user < s.members.db.users.length) (he : Justified C c l.logins (e :: l.events)) :
    Sessions C c { s with hashes := hashes } { l with events := e :: l.events } where
  users e' he' := by
    rcases List.mem_cons.mp he' with rfl | he'
    · exact hu
    · exact h.users e' he'
  logins y hy := ⟨(h.logins y hy).1.mono (List.subset_cons_self e _), (h.logins y hy).2⟩
  changes hpc := by
    obtain ⟨hlt, hknown, hopened⟩ := h.changes hpc
    exact ⟨hlt, hknown.mono (List.subset_cons_self e _),
      hopened.mono (fun _ h ↦ h) (List.subset_cons_self e _)⟩
  events := he

theorem setChange (h : Sessions C c s l) {i : ReqId} {pc : ChangePc}
    (hpc : ∀ {v current new since}, pc = .commit v current new since →
      v < s.members.db.users.length ∧ Known C l.events v current ∧
        Opened C c l.logins l.events v since) : Sessions C c (s.setChange i pc) l where
  users := h.users
  logins := h.logins
  changes {j v current new since} hj := by
    simp only [State.setChange, Function.update_apply] at hj
    split at hj
    · exact hpc hj
    · exact h.changes hj
  events := h.events

theorem login (h : Sessions C c s l) (hashed : Hashed C s l) {limits : Limits}
    {email password token : String} (hlogin : s.login C c limits email password = .ok (u, token)) :
    Sessions C c s { l with logins := ⟨u, password, s.members.now⟩ :: l.logins } where
  users := h.users
  logins y hy := by
    rcases List.mem_cons.mp hy with rfl | hy
    · obtain ⟨hu, hverify, -⟩ := authenticateUser_ok.mp (login_ok.mp ⟨token, hlogin⟩).2
      obtain ⟨p, hp, hsha⟩ := (hashed.verify (lt_of_getUserByEmail hu) password).mp hverify
      exact ⟨known_of_newest hp hsha, le_rfl⟩
    · exact h.logins y hy
  changes hpc := by
    obtain ⟨hlt, hknown, hopened⟩ := h.changes hpc
    exact ⟨hlt, hknown, hopened.mono (List.subset_cons_self _ _) fun _ h ↦ h⟩
  events := h.events.mono (List.subset_cons_self _ _)

/-- A change is accepted in a session that a login has opened. -/
theorem change (h : Sessions C c s l) (hashed : Hashed C s l) {i : ReqId}
    {token current new : String} (hg : Unforged C c (s, l) (.change i token current new)) :
    Sessions C c (s.setChange i (s.changePassword C token current new)) l := by
  refine h.setChange fun {v current' new' since} hpc ↦ ?_
  obtain ⟨huser, hverify, rfl, -, rfl, -⟩ := changePassword_commit hpc
  obtain ⟨hlt, p, hp, hsub, hexp⟩ := getCurrentUser_ok huser
  obtain ⟨q, hq, hsha⟩ := (hashed.verify hlt _).mp hverify
  obtain ⟨y, hy, hyu, hyexp⟩ := hg p hp
  have hyv : y.user = v := by
    rw [hsub, Option.some_inj] at hyu
    exact hyu.symm
  obtain ⟨hknown, htime⟩ := h.logins y hy
  exact ⟨hlt, known_of_newest hq hsha, y, hy, hyv, hyv ▸ hknown, htime, hyexp ▸ hexp⟩

theorem step {a : Act} (h : Sessions C c s l) (hashed : Hashed C s l)
    (hg : Unforged C c (s, l) a) (hn : step C c s a = some s') :
    Sessions C c s' (l.observe C c s a) := by
  cases a with
  | members a salt =>
      obtain ⟨m, hm, rfl⟩ := Option.map_eq_some_iff.mp hn
      have hnow := (members_step hm).1
      simp only [Ledger.observe, hm, Option.bind_some]
      rcases created_cases hm with ⟨hnone, hlength⟩ | ⟨p, hsome, hlength⟩
      · rw [hnone]
        exact h.later hnow hlength.ge
      · rw [hsome]
        have hnew : ∀ e ∈ l.events, e.user ≠ s.members.db.users.length :=
          fun e he ↦ (h.users e he).ne
        have hlt : s.members.db.users.length < m.db.users.length := by omega
        have hlater : Sessions C c { s with members := m, passwords := s.remember a } l :=
          h.later hnow hlt.le
        exact hlater.event (e := .created s.members.db.users.length p) hlt ⟨hnew, h.events⟩
  | login limits email password =>
      cases hn
      simp only [Ledger.observe]
      split
      · exact h
      · next u token hlogin => exact h.login hashed hlogin
  | change i token current new =>
      simp only [Passwords.step] at hn
      split at hn
      · cases hn
        exact h.change hashed hg
      · cases hn
  | changeCommit i salt =>
      simp only [Passwords.step] at hn
      split at hn
      · next v current new since hpc =>
          cases hn
          obtain ⟨hlt, hknown, hopened⟩ := h.changes hpc
          simp only [Ledger.observe, hpc]
          have hended : Sessions C c (s.setChange i (.ended (.ok ()))) l :=
            h.setChange fun hpc ↦ by cases hpc
          exact hended.event (e := .changed v current new since) hlt ⟨hknown, hopened, h.events⟩
      · cases hn
  | changeRaise i =>
      simp only [Passwords.step] at hn
      split at hn
      · cases hn
        exact h.setChange fun hpc ↦ by cases hpc
      · cases hn
  | setActive v b =>
      cases hn
      exact ⟨h.users, h.logins, h.changes, h.events⟩

end Sessions

/-- **No password changes hands.**  If no token is forged, each password of each user was set when
the user was created, or by a request that presented a password of the user set before that, in a
session which the user had opened with one and which had not expired when the request was checked. -/
theorem justified_of_reach {x : State × Ledger} (h : (system C c).Reach (Unforged C c) x) :
    Justified C c x.2.logins x.2.events := by
  have hboth : Hashed C x.1 x.2 ∧ Sessions C c x.1 x.2 := by
    refine h.invariant (P := fun x ↦ Hashed C x.1 x.2 ∧ Sessions C c x.1 x.2)
      ⟨hashed_init, Sessions.init⟩ fun x a x' hx hg hn ↦ ?_
    obtain ⟨s', hs', rfl⟩ := Option.map_eq_some_iff.mp hn
    exact ⟨hx.1.step hs', hx.2.step hx.1 hg hs'⟩
  exact hboth.2.events

end

/-! ## A run -/

/-- The digests of the passwords of the run. -/
def digests (plain : String) : List UInt8 :=
  if plain = "correct horse" then
    [65, 4, 211, 111, 141, 162, 194, 84, 52, 159, 133, 131, 103, 147, 235, 224, 41, 224, 201, 87, 6,
      58, 52, 201, 28, 46, 146, 3, 24, 123, 86, 49]
  else if plain = "battery staple" then
    [17, 226, 183, 137, 94, 123, 61, 202, 141, 248, 208, 207, 150, 95, 222, 121, 59, 130, 205, 57,
      36, 39, 116, 39, 124, 169, 13, 114, 208, 155, 253, 89]
  else if plain = "tr0ub4dor" then
    [72, 17, 124, 80, 16, 222, 25, 236, 49, 97, 168, 32, 117, 169, 172, 32, 202, 199, 35, 14, 103,
      107, 238, 42, 253, 149, 70, 169, 4, 239, 243, 215]
  else List.replicate 32 0

/-- The characters that stand for bytes in the hashes of the run. -/
def mark (b : UInt8) : Char := Char.ofNat (b.toNat + 256)

theorem toNat_mark (b : UInt8) : (mark b).toNat = b.toNat + 256 := by
  have hb := b.toNat_lt
  have hvalid : Nat.isValidChar (b.toNat + 256) := .inl (by omega)
  rw [mark, Char.ofNat, dif_pos hvalid]
  rfl

theorem mark_injective : Function.Injective mark := by
  intro b b' h
  have hnat := congrArg Char.toNat h
  rw [toNat_mark, toNat_mark] at hnat
  exact UInt8.toNat_inj.mp (by omega)

theorem mark_ne_dollar (b : UInt8) : mark b ≠ '$' := by
  intro h
  have hnat := congrArg Char.toNat h
  rw [toNat_mark] at hnat
  have hdollar : '$'.toNat = 36 := rfl
  omega

/-- A hash is what was hashed, with the salt behind it; a token is its claims in tally marks. -/
def sampleCrypto : Crypto where
  sha256 := digests
  length_sha256 s := by
    rw [digests]
    split
    · rfl
    · split
      · rfl
      · split
        · rfl
        · rfl
  hashpw p salt := String.ofList (p.map mark ++ '$' :: salt.toList)
  checkpw p h := if '$' ∈ h.toList then some (h.toList.takeWhile (· ≠ '$') = p.map mark) else none
  checkpw_hashpw {p q} _ _ salt := by
    have hall : ∀ ch ∈ q.map mark, decide (ch ≠ '$') = true := by
      intro ch hch
      obtain ⟨b, -, rfl⟩ := List.mem_map.mp hch
      exact decide_eq_true (mark_ne_dollar b)
    have htake : (q.map mark ++ '$' :: salt.toList).takeWhile (· ≠ '$') = q.map mark := by
      rw [List.takeWhile_append_of_pos hall, List.takeWhile_cons_of_neg (by decide),
        List.append_nil]
    rw [String.toList_ofList, htake, if_pos (List.mem_append_right _ List.mem_cons_self)]
    refine congrArg some (decide_eq_decide.mpr ?_)
    rw [mark_injective.list_map.eq_iff]
    exact eq_comm
  jwtEncode p := String.ofList (List.replicate (p.sub.elim 0 (· + 1)) 'u' ++
    List.replicate p.org 'o' ++ List.replicate p.exp 'x')
  jwtDecode t :=
    let n := t.toList.count 'u'
    some ⟨if n = 0 then none else some (n - 1), t.toList.count 'o', t.toList.count 'x'⟩

def sampleConfig : Config := { members := ⟨some⟩, rate := ⟨20, 60⟩, expire := 60 }

/-- The session of the run. -/
def adaToken : String := createAccessToken sampleCrypto 60 5 0 0

/-- A user registers and logs in, and two requests change the password at the same time; both
present the first one, and the second to commit decides. -/
def changedTwice : List Act :=
  [.members (.call 0 (.register "Acme" "ada@example.org" "correct horse")) "",
    .members (.query 0) "", .members (.query 0) "", .members (.commit 0) "s0",
    .members (.tick 5) "", .login ⟨.allowed, .allowed⟩ "ada@example.org" "correct horse",
    .members (.tick 60) "", .change 0 adaToken "correct horse" "battery staple",
    .change 1 adaToken "correct horse" "tr0ub4dor", .members (.tick 1) "",
    .change 2 adaToken "correct horse" "battery staple", .changeCommit 1 "s1",
    .changeCommit 0 "s2"]

theorem changedTwice_reaches : ∃ x, (system sampleCrypto sampleConfig).Reach
    (Unforged sampleCrypto sampleConfig) x ∧
      (x.1.members.db.getUserByEmail "ada@example.org", x.1.active 0, x.2.events, x.2.logins) =
        (some 0, true,
          [.changed 0 "correct horse" "battery staple" 65, .changed 0 "correct horse" "tr0ub4dor" 65,
            .created 0 "correct horse"],
          [⟨0, "correct horse", 5⟩]) :=
  System.Reach.of_exec (l := changedTwice) (by decide)

theorem login_changedTwice : ∃ x, (system sampleCrypto sampleConfig).Reachable x ∧
    (∃ token, x.1.login sampleCrypto sampleConfig ⟨.allowed, .allowed⟩ "ada@example.org"
      "battery staple" = .ok (0, token)) ∧
    (¬∃ token, x.1.login sampleCrypto sampleConfig ⟨.allowed, .allowed⟩ "ada@example.org"
      "tr0ub4dor" = .ok (0, token)) ∧
    ¬∃ token, x.1.login sampleCrypto sampleConfig ⟨.allowed, .limited⟩ "ada@example.org"
      "battery staple" = .ok (0, token) := by
  obtain ⟨x, hreach, hx⟩ := changedTwice_reaches
  simp only [Prod.mk.injEq] at hx
  obtain ⟨hemail, hactive, hevents, -⟩ := hx
  have hreach' : (system sampleCrypto sampleConfig).Reachable x :=
    hreach.invariant (P := (system sampleCrypto sampleConfig).Reachable) .init
      fun _ _ _ h _ hn ↦ .step h trivial hn
  refine ⟨x, hreach', (login_iff hreach' _ _ _ 0).mpr ⟨⟨rfl, fun _ ↦ rfl⟩, hemail, ?_, hactive⟩,
    fun h ↦ ?_, fun h ↦ ?_⟩
  · rw [hevents]
    exact ⟨_, rfl, rfl⟩
  · obtain ⟨-, -, ⟨p, hp, hsha⟩, -⟩ := (login_iff hreach' _ _ _ 0).mp h
    rw [hevents] at hp
    cases hp
    exact absurd hsha (by decide)
  · have hlimited := ((login_iff hreach' _ _ _ 0).mp h).1.2 (by decide)
    cases hlimited

theorem justified_changedTwice : ∃ x, (system sampleCrypto sampleConfig).Reach
    (Unforged sampleCrypto sampleConfig) x ∧ x.2.events.length = 3 ∧
      Justified sampleCrypto sampleConfig x.2.logins x.2.events := by
  obtain ⟨x, hreach, hx⟩ := changedTwice_reaches
  simp only [Prod.mk.injEq] at hx
  exact ⟨x, hreach, by rw [hx.2.2.1]; rfl, justified_of_reach hreach⟩

end Adapta.Auth.Passwords
