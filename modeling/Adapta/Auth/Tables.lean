import Adapta.Auth.Members

/-!
# The tables behind teams

What the commits of `Adapta.Auth.Members` do to the database, which requests know what of it, and
the invariant that this gives: emails and tokens are unique, an invitation is of its team's org and
was issued by an admin of the team, and no token leads to two memberships.

`invariant_of_commits` is the rule by which something is shown of all runs: it is about single
queries and single commits, with a database for the other requests that only grows.
-/

namespace Adapta.Auth.Members

open Lib Api

/-! ## Queries -/

variable {c : Config} {db db' db'' : Db} {x y : Invitation} {u : Option UserId} {k : InvitationId}
  {join : Bool} {m : TeamMember} {email token orgName : String} {time : Nat}

theorem getElem?_concat {α : Type} {l : List α} {y x : α} {i : Nat}
    (h : (l ++ [y])[i]? = some x) : l[i]? = some x ∨ i = l.length ∧ y = x := by
  rw [List.getElem?_append] at h
  split at h
  · exact .inl h
  · next hlt =>
      rw [List.getElem?_singleton] at h
      split at h
      · next heq => exact .inr ⟨by omega, Option.some.inj h⟩
      · cases h

theorem getElem?_concat_of_some {α : Type} {l : List α} {y x : α} {i : Nat} (h : l[i]? = some x) :
    (l ++ [y])[i]? = some x := by
  have hlt : i < l.length := (List.getElem?_eq_some_iff.mp h).1
  rw [List.getElem?_append_left hlt, h]

namespace Db

theorem getUserByEmail_some {i : UserId} (h : db.getUserByEmail email = some i) :
    ∃ w, db.users[i]? = some w ∧ w.email = email := by
  obtain ⟨hlt, hp, -⟩ := List.findIdx?_eq_some_iff_getElem.mp h
  exact ⟨_, List.getElem?_eq_getElem hlt, by simpa using hp⟩

theorem getUserByEmail_none (h : db.getUserByEmail email = none) {i : UserId} {w : User}
    (hw : db.users[i]? = some w) : w.email ≠ email := by
  have hall := List.findIdx?_eq_none_iff.mp h w (List.mem_of_getElem? hw)
  simpa using hall

theorem invitationOf_none (h : db.invitationOf token = none) (hx : db.invitations[k]? = some x) :
    x.token ≠ token := by
  have hall := List.findIdx?_eq_none_iff.mp h x (List.mem_of_getElem? hx)
  simpa using hall

theorem mem_of_role {i : UserId} {t : TeamId} {r : Role}
    (h : db.getUserRoleInTeam i t = some r) : ⟨t, i, r⟩ ∈ db.members := by
  obtain ⟨m, hm, rfl⟩ := Option.map_eq_some_iff.mp h
  have hp := List.find?_some hm
  simp only [decide_eq_true_eq] at hp
  obtain ⟨rfl, rfl⟩ := hp
  exact List.mem_of_find?_eq_some hm

end Db

/-! ## What commits do -/

/-- The row is the same invitation at another time. -/
def Invitation.Same (x y : Invitation) : Prop :=
  y = { x with status := y.status, acceptedAt := y.acceptedAt }

theorem Invitation.Same.refl : x.Same x := rfl

theorem Invitation.Same.trans {z : Invitation} (h : x.Same y) (h' : y.Same z) : x.Same z := by
  rw [Same] at h h' ⊢
  rw [h', h]

/-- A later database: nothing is deleted, and invitations keep what they offer. -/
structure Db.Later (db db' : Db) : Prop where
  teams : ∀ (t : TeamId) (w : Team), db.teams[t]? = some w → db'.teams[t]? = some w
  users : ∀ (i : UserId) (w : User), db.users[i]? = some w → db'.users[i]? = some w
  members : ∀ m ∈ db.members, m ∈ db'.members
  invitations : ∀ (k : InvitationId) (x : Invitation), db.invitations[k]? = some x →
    ∃ y, db'.invitations[k]? = some y ∧ x.Same y

namespace Db

theorem Later.refl : Later db db :=
  ⟨fun _ _ h ↦ h, fun _ _ h ↦ h, fun _ h ↦ h, fun _ x h ↦ ⟨x, h, .refl⟩⟩

theorem register_cases (h : db.register orgName email = some db') :
    db.getUserByEmail email = none ∧ db' =
      { db with
        orgs := db.orgs ++ [orgName]
        teams := db.teams ++ [⟨db.orgs.length, "default"⟩]
        users := db.users ++ [⟨db.orgs.length, email⟩]
        members := db.members ++ [⟨db.teams.length, db.users.length, .admin⟩] } := by
  simp only [register, Option.ite_none_left_eq_some, Option.some.injEq, not_or] at h
  obtain ⟨⟨-, hemail⟩, rfl⟩ := h
  exact ⟨by simpa using hemail, rfl⟩

theorem register_later (h : db.register orgName email = some db') : db.Later db' := by
  obtain ⟨-, rfl⟩ := register_cases h
  exact ⟨fun _ _ ↦ getElem?_concat_of_some, fun _ _ ↦ getElem?_concat_of_some,
    fun _ ↦ List.mem_append_left _, fun _ x h ↦ ⟨x, h, .refl⟩⟩

theorem invite_cases (h : db.invite x = some db') :
    db.invitationOf x.token = none ∧ db' = { db with invitations := db.invitations ++ [x] } := by
  simp only [invite, Option.ite_none_left_eq_some, Option.some.injEq] at h
  obtain ⟨hnone, rfl⟩ := h
  exact ⟨by simpa using hnone, rfl⟩

theorem invite_later (h : db.invite x = some db') : db.Later db' := by
  obtain ⟨-, rfl⟩ := invite_cases h
  exact ⟨fun _ _ h ↦ h, fun _ _ h ↦ h, fun _ h ↦ h,
    fun _ y h ↦ ⟨y, getElem?_concat_of_some h, .refl⟩⟩

/-- An update reaches one invitation, and leaves what it offers. -/
theorem setInvitation_cases {f : Invitation → Invitation} (hf : ∀ x : Invitation, x.Same (f x))
    {j : InvitationId} (h : (db.setInvitation k f).invitations[j]? = some y) :
    ∃ x, db.invitations[j]? = some x ∧ x.Same y ∧ y = if j = k then f x else x := by
  simp only [setInvitation, List.getElem?_modify] at h
  obtain ⟨x, hx, hy⟩ := Option.map_eq_some_iff.mp h
  refine ⟨x, hx, ?_⟩
  by_cases hj : k = j
  · subst hj
    rw [if_pos rfl] at hy
    subst hy
    exact ⟨hf x, (if_pos rfl).symm⟩
  · rw [if_neg hj] at hy
    subst hy
    exact ⟨.refl, (if_neg (Ne.symm hj)).symm⟩

theorem setInvitation_later {f : Invitation → Invitation} (hf : ∀ x : Invitation, x.Same (f x)) :
    db.Later (db.setInvitation k f) := by
  refine ⟨fun _ _ h ↦ h, fun _ _ h ↦ h, fun _ h ↦ h, ?_⟩
  intro j x hx
  by_cases hj : k = j
  · subst hj
    exact ⟨f x, by simp [setInvitation, hx], hf x⟩
  · exact ⟨x, by simp [setInvitation, hx, hj], .refl⟩

/-- The row of an acceptance. -/
def accepted (time : Nat) (y : Invitation) : Invitation :=
  { y with status := .accepted, acceptedAt := some time }

theorem addUser_cases (h : db.addUser x u = some db') :
    (∃ i, u = some i ∧ db' = db) ∨ u = none ∧ db.getUserByEmail x.email = none ∧
      db' = { db with users := db.users ++ [⟨x.org, x.email⟩] } := by
  cases u with
  | some i =>
      cases h
      exact .inl ⟨i, rfl, rfl⟩
  | none =>
      simp only [addUser, Option.ite_none_left_eq_some, Option.some.injEq] at h
      obtain ⟨hnone, rfl⟩ := h
      exact .inr ⟨rfl, by simpa using hnone, rfl⟩

/-- Only `users` may change. -/
theorem addUser_frame (h : db.addUser x u = some db') :
    db'.members = db.members ∧ db'.invitations = db.invitations := by
  rcases addUser_cases h with ⟨i, -, rfl⟩ | ⟨-, -, rfl⟩
  · exact ⟨rfl, rfl⟩
  · exact ⟨rfl, rfl⟩

theorem addUser_later (h : db.addUser x u = some db') : db.Later db' := by
  rcases addUser_cases h with ⟨i, -, rfl⟩ | ⟨-, -, rfl⟩
  · exact .refl
  · exact ⟨fun _ _ h ↦ h, fun _ _ ↦ getElem?_concat_of_some, fun _ h ↦ h,
      fun _ y h ↦ ⟨y, h, .refl⟩⟩

theorem addMember_cases (h : db.addMember m = some db') :
    (∀ m' ∈ db.members, m'.team = m.team → m'.user ≠ m.user) ∧
      db' = { db with members := db.members ++ [m] } := by
  simp only [addMember, Option.ite_none_left_eq_some, Option.some.injEq] at h
  obtain ⟨hnone, rfl⟩ := h
  exact ⟨by simpa using hnone, rfl⟩

theorem Later.trans (h : db.Later db') (h' : db'.Later db'') : db.Later db'' := by
  refine ⟨fun t w hw ↦ h'.teams t w (h.teams t w hw), fun i w hw ↦ h'.users i w (h.users i w hw),
    fun m hm ↦ h'.members m (h.members m hm), ?_⟩
  intro k x hx
  obtain ⟨y, hy, hxy⟩ := h.invitations k x hx
  obtain ⟨z, hz, hyz⟩ := h'.invitations k y hy
  exact ⟨z, hz, hxy.trans hyz⟩

/-- The rows of an acceptance: a user unless there is one, a membership if there is none, and the
invitation. -/
theorem accept_cases (h : db.accept k x u join time = some db') : ∃ db₁ db₂,
    db.addUser x u = some db₁ ∧
    (join = true ∧ db₁.addMember ⟨x.team, db.joining u, x.role⟩ = some db₂ ∨
      join = false ∧ db₂ = db₁) ∧
    db' = db₂.setInvitation k (accepted time) := by
  obtain ⟨db₁, h₁, h⟩ := Option.bind_eq_some_iff.mp h
  obtain ⟨db₂, h₂, rfl⟩ := Option.map_eq_some_iff.mp h
  refine ⟨db₁, db₂, h₁, ?_, rfl⟩
  cases join with
  | true => exact .inl ⟨rfl, by simpa using h₂⟩
  | false =>
      simp only [Bool.false_eq_true, if_false, Option.some.injEq] at h₂
      exact .inr ⟨rfl, h₂.symm⟩

/-- An acceptance updates its invitation, and no other. -/
theorem accept_invitations (h : db.accept k x u join time = some db') :
    db'.invitations = (db.setInvitation k (accepted time)).invitations := by
  obtain ⟨db₁, db₂, h₁, h₂, rfl⟩ := accept_cases h
  obtain ⟨-, hsame⟩ := addUser_frame h₁
  rcases h₂ with ⟨-, h₂⟩ | ⟨-, rfl⟩
  · obtain ⟨-, rfl⟩ := addMember_cases h₂
    simp only [setInvitation, hsame]
  · simp only [setInvitation, hsame]

/-- It inserts the membership that the invitation offers, or none. -/
theorem accept_members (h : db.accept k x u join time = some db') (hm : m ∈ db'.members) :
    m ∈ db.members ∨ m = ⟨x.team, db.joining u, x.role⟩ := by
  obtain ⟨db₁, db₂, h₁, h₂, rfl⟩ := accept_cases h
  obtain ⟨hsame, -⟩ := addUser_frame h₁
  rcases h₂ with ⟨-, h₂⟩ | ⟨-, rfl⟩
  · obtain ⟨-, rfl⟩ := addMember_cases h₂
    rcases List.mem_append.mp hm with hm | hm
    · exact .inl (hsame ▸ hm)
    · exact .inr (List.mem_singleton.mp hm)
  · exact .inl (hsame ▸ hm)

/-- Whoever joins is the user that was found, or a new one with the email and the org of the
invitation. -/
theorem user_joining (h : db.addUser x u = some db') :
    (∃ i, u = some i ∧ db.joining u = i ∧ db' = db) ∨
      db'.users[db.joining u]? = some ⟨x.org, x.email⟩ := by
  rcases addUser_cases h with ⟨i, rfl, rfl⟩ | ⟨rfl, -, rfl⟩
  · exact .inl ⟨i, rfl, rfl, rfl⟩
  · exact .inr (by simp [joining])

theorem accept_users (h : db.accept k x u join time = some db') :
    (∃ i, u = some i ∧ db.joining u = i) ∨
      db'.users[db.joining u]? = some ⟨x.org, x.email⟩ := by
  obtain ⟨db₁, db₂, h₁, h₂, rfl⟩ := accept_cases h
  rcases user_joining h₁ with ⟨i, hi, hjoin, -⟩ | hnew
  · exact .inl ⟨i, hi, hjoin⟩
  · rcases h₂ with ⟨-, h₂⟩ | ⟨-, rfl⟩
    · obtain ⟨-, rfl⟩ := addMember_cases h₂
      exact .inr hnew
    · exact .inr hnew

theorem same_accepted : x.Same (accepted time x) := rfl

theorem accept_later (h : db.accept k x u join time = some db') : db.Later db' := by
  obtain ⟨db₁, db₂, h₁, h₂, rfl⟩ := accept_cases h
  refine (addUser_later h₁).trans (.trans ?_ (setInvitation_later fun _ ↦ same_accepted))
  rcases h₂ with ⟨-, h₂⟩ | ⟨-, rfl⟩
  · obtain ⟨-, rfl⟩ := addMember_cases h₂
    exact ⟨fun _ _ h ↦ h, fun _ _ h ↦ h, fun _ ↦ List.mem_append_left _,
      fun _ y h ↦ ⟨y, h, .refl⟩⟩
  · exact .refl

end Db

/-! ## The invariant -/

/-- The org of a team. -/
def Db.orgOf (db : Db) (t : TeamId) : Option OrgId := db.teams[t]?.map Team.org

/-- The email of a user. -/
def Db.emailOf (db : Db) (i : UserId) : Option String := db.users[i]?.map User.email

/-- What an invitation is issued with: its team's org, and an admin of the team. -/
structure Db.MayIssue (db : Db) (x : Invitation) : Prop where
  org : db.orgOf x.team = some x.org
  admin : ⟨x.team, x.invitedBy, .admin⟩ ∈ db.members

/-- The invitation that was loaded is a row, and a user who was found has its email. -/
structure Db.MayAccept (db : Db) (k : InvitationId) (x : Invitation) (u : Option UserId) :
    Prop where
  row : ∃ y, db.invitations[k]? = some y ∧ x.Same y
  user : ∀ i, u = some i → db.emailOf i = some x.email

/-- What a request knows of the database. -/
def ReqPc.Ok (db : Db) : ReqPc → Prop
  | .inviteTeam caller team _ _ _ => ⟨team, caller, .admin⟩ ∈ db.members
  | .inviteUser x | .inviteMember x _ | .inviteCommit x => db.MayIssue x
  | .acceptUser k x | .acceptCreate k x => db.MayAccept k x none
  | .acceptMember k x u | .acceptCommit k x u _ _ => db.MayAccept k x u
  | _ => True

/-- The rows with what has led to them. -/
structure Inv (db : Db) (log : Log) : Prop where
  /-- `users.email` is unique. -/
  emails : ∀ i j e, db.emailOf i = some e → db.emailOf j = some e → i = j
  /-- `invitations.token` is unique. -/
  tokens : ∀ (j k : InvitationId) (x y : Invitation), db.invitations[j]? = some x →
    db.invitations[k]? = some y → x.token = y.token → j = k
  orgs : ∀ (k : InvitationId) (x : Invitation), db.invitations[k]? = some x →
    db.orgOf x.team = some x.org
  issued : ∀ (k : InvitationId) (x : Invitation), db.invitations[k]? = some x →
    ∃ ms, (k, ms) ∈ log.issued ∧ ⟨x.team, x.invitedBy, .admin⟩ ∈ ms
  /-- Who has joined by a token has the email of its invitation, and is in its team. -/
  joined : ∀ token m, (token, m) ∈ log.joined → m ∈ db.members ∧
    ∃ (k : InvitationId) (x : Invitation), db.invitations[k]? = some x ∧ x.token = token ∧
      x.team = m.team ∧ db.emailOf m.user = some x.email
  once : (log.joined.map Prod.fst).Nodup

namespace Db.Later

theorem orgOf (h : db.Later db') {t : TeamId} {o : OrgId} (ho : db.orgOf t = some o) :
    db'.orgOf t = some o := by
  obtain ⟨w, hw, rfl⟩ := Option.map_eq_some_iff.mp ho
  rw [Db.orgOf, h.teams t w hw, Option.map_some]

theorem emailOf (h : db.Later db') {i : UserId} (he : db.emailOf i = some email) :
    db'.emailOf i = some email := by
  obtain ⟨w, hw, rfl⟩ := Option.map_eq_some_iff.mp he
  rw [Db.emailOf, h.users i w hw, Option.map_some]

theorem mayIssue (h : db.Later db') (hx : db.MayIssue x) : db'.MayIssue x :=
  ⟨h.orgOf hx.org, h.members _ hx.admin⟩

theorem mayAccept (h : db.Later db') (hx : db.MayAccept k x u) : db'.MayAccept k x u := by
  obtain ⟨y, hy, hxy⟩ := hx.row
  obtain ⟨z, hz, hyz⟩ := h.invitations k y hy
  exact ⟨⟨z, hz, hxy.trans hyz⟩, fun i hi ↦ h.emailOf (hx.user i hi)⟩

theorem ok (h : db.Later db') {pc : ReqPc} (hpc : pc.Ok db) : pc.Ok db' := by
  cases pc with
  | inviteTeam => exact h.members _ hpc
  | inviteUser | inviteMember | inviteCommit => exact h.mayIssue hpc
  | acceptUser | acceptCreate | acceptMember | acceptCommit => exact h.mayAccept hpc
  | absent | registerOrg | registerUser | registerCommit | inviteAdmin | acceptInvitation
  | acceptRevoke | ended => trivial

end Db.Later

theorem ReqPc.Ok.fail {e : DomainError} : (ReqPc.fail e).Ok db := trivial

/-- The queries establish what the commits rely on. -/
theorem ReqPc.Ok.afterQuery {now : Nat} {pc pc' : ReqPc} (h : pc.Ok db)
    (hn : pc.afterQuery c db now = some pc') : pc'.Ok db := by
  cases pc with
  | registerOrg orgName email | registerUser orgName email =>
      simp only [ReqPc.afterQuery] at hn
      split at hn
      · cases hn
        exact .fail
      · cases hn
        trivial
  | inviteAdmin caller team email role token =>
      simp only [ReqPc.afterQuery] at hn
      split at hn
      · cases hn
        exact .fail
      · next hrole =>
          split at hn
          · cases hn
            exact .fail
          · cases hn
            exact Db.mem_of_role hrole
      · cases hn
        exact .fail
  | inviteTeam caller team email role token =>
      simp only [ReqPc.afterQuery] at hn
      split at hn
      · cases hn
        exact .fail
      · next w hw =>
          cases hn
          refine ⟨?_, h⟩
          simp only [Db.orgOf, hw, Option.map_some]
  | inviteUser x =>
      simp only [ReqPc.afterQuery] at hn
      split at hn
      · cases hn
        exact h
      · cases hn
        exact ⟨h.org, h.admin⟩
  | inviteMember x i =>
      simp only [ReqPc.afterQuery] at hn
      split at hn
      · cases hn
        exact .fail
      · cases hn
        exact ⟨h.org, h.admin⟩
  | acceptInvitation token =>
      simp only [ReqPc.afterQuery] at hn
      split at hn
      · cases hn
        exact .fail
      · next k hk =>
          obtain ⟨x, hx, rfl⟩ := Option.map_eq_some_iff.mp hn
          split
          · exact .fail
          · split
            · trivial
            · exact ⟨⟨x, hx, .refl⟩, fun i hi ↦ by cases hi⟩
  | acceptUser k x =>
      simp only [ReqPc.afterQuery] at hn
      split at hn
      · next i hi =>
          cases hn
          refine ⟨h.row, ?_⟩
          intro j hj
          cases hj
          obtain ⟨w, hw, he⟩ := Db.getUserByEmail_some hi
          rw [Db.emailOf, hw, Option.map_some, he]
      · cases hn
        exact h
  | acceptCreate k x =>
      simp only [ReqPc.afterQuery] at hn
      split at hn
      · cases hn
        exact .fail
      · cases hn
        exact h
  | acceptMember k x u =>
      cases hn
      exact h
  | absent | registerCommit | inviteCommit | acceptRevoke | acceptCommit | ended => cases hn

/-- The time of an acceptance is that of its last query. -/
theorem ReqPc.member_of_afterQuery {pc : ReqPc} {now : Nat}
    (h : pc.afterQuery c db now = some (.acceptCommit k x u join time)) :
    pc = .acceptMember k x u ∧ time = now := by
  cases pc with
  | acceptMember k' x' u' =>
      simp only [ReqPc.afterQuery, Option.some.injEq, ReqPc.acceptCommit.injEq] at h
      obtain ⟨rfl, rfl, rfl, -, rfl⟩ := h
      exact ⟨rfl, rfl⟩
  | _ => grind [ReqPc.afterQuery, ReqPc.fail]

/-- The user of an acceptance is found by the email, or is to be created. -/
theorem ReqPc.user_of_afterQuery {pc : ReqPc} {now : Nat}
    (h : pc.afterQuery c db now = some (.acceptMember k x u)) :
    (pc = .acceptUser k x ∧ ∃ i, u = some i ∧ db.getUserByEmail x.email = some i) ∨
      pc = .acceptCreate k x ∧ u = none := by
  cases pc with
  | acceptUser k' x' =>
      simp only [ReqPc.afterQuery] at h
      split at h
      · next i hi =>
          cases h
          exact .inl ⟨rfl, i, rfl, hi⟩
      · cases h
  | acceptCreate k' x' =>
      simp only [ReqPc.afterQuery] at h
      split at h
      · cases h
      · cases h
        exact .inr ⟨rfl, rfl⟩
  | _ => grind [ReqPc.afterQuery, ReqPc.fail]

variable {log : Log}

/-- Whoever joins has the email of the invitation. -/
theorem Db.emailOf_joining (hx : db.MayAccept k x u) (hr : db.addUser x u = some db') :
    db'.emailOf (db.joining u) = some x.email := by
  rcases Db.user_joining hr with ⟨i, hi, hjoin, rfl⟩ | hnew
  · rw [hjoin]
    exact hx.user i hi
  · rw [Db.emailOf, hnew, Option.map_some]

/-- A user with a new email. -/
theorem emailOf_concat {w : User} {i : UserId} {e : String} (hdb : db'.users = db.users ++ [w])
    (h : db'.emailOf i = some e) :
    db.emailOf i = some e ∨ i = db.users.length ∧ w.email = e := by
  obtain ⟨w', hw', rfl⟩ := Option.map_eq_some_iff.mp h
  rw [hdb] at hw'
  rcases getElem?_concat hw' with hold | ⟨hi, rfl⟩
  · exact .inl (by rw [Db.emailOf, hold, Option.map_some])
  · exact .inr ⟨hi, rfl⟩

theorem emails_concat {w : User} (hdb : db'.users = db.users ++ [w])
    (hnew : db.getUserByEmail w.email = none)
    (h : ∀ i j e, db.emailOf i = some e → db.emailOf j = some e → i = j) (i j : UserId) (e : String)
    (hi : db'.emailOf i = some e) (hj : db'.emailOf j = some e) : i = j := by
  have hfresh : ∀ i, db.emailOf i ≠ some w.email := by
    intro i hi
    obtain ⟨w', hw', he⟩ := Option.map_eq_some_iff.mp hi
    exact Db.getUserByEmail_none hnew hw' he
  rcases emailOf_concat hdb hi with hi | ⟨rfl, rfl⟩
  · rcases emailOf_concat hdb hj with hj | ⟨rfl, rfl⟩
    · exact h i j e hi hj
    · exact absurd hi (hfresh i)
  · rcases emailOf_concat hdb hj with hj | ⟨rfl, -⟩
    · exact absurd hj (hfresh j)
    · rfl

namespace Inv

protected theorem init : Inv .empty .init where
  emails i j e hi := by cases hi
  tokens j k x y hx := by cases hx
  orgs k x hx := by cases hx
  issued k x hx := by cases hx
  joined token m hm := by cases hm
  once := .nil

/-- In a later database those who have joined are still there. -/
theorem joined_later (h : Inv db log) (hl : db.Later db') (token : String) (m : TeamMember)
    (hm : (token, m) ∈ log.joined) : m ∈ db'.members ∧ ∃ (k : InvitationId) (x : Invitation),
      db'.invitations[k]? = some x ∧ x.token = token ∧ x.team = m.team ∧
        db'.emailOf m.user = some x.email := by
  obtain ⟨hmem, k, x, hx, rfl, hteam, hemail⟩ := h.joined token m hm
  obtain ⟨y, hy, hsame⟩ := hl.invitations k x hx
  refine ⟨hl.members m hmem, k, y, hy, ?_⟩
  rw [hsame]
  exact ⟨rfl, hteam, hl.emailOf hemail⟩

theorem register (h : Inv db log) (hr : db.register orgName email = some db') : Inv db' log := by
  have hl := Db.register_later hr
  obtain ⟨hnew, rfl⟩ := Db.register_cases hr
  exact
    { emails := emails_concat rfl hnew h.emails
      tokens := h.tokens
      orgs := fun k x hx ↦ hl.orgOf (h.orgs k x hx)
      issued := h.issued
      joined := h.joined_later hl
      once := h.once }

theorem invite (h : Inv db log) (hx : db.MayIssue x) (hr : db.invite x = some db') :
    Inv db' { log with issued := (db.invitations.length, db.members) :: log.issued } := by
  have hl := Db.invite_later hr
  obtain ⟨hnew, rfl⟩ := Db.invite_cases hr
  refine ⟨h.emails, ?_, ?_, ?_, h.joined_later hl, h.once⟩
  · intro j k y z hy hz heq
    rcases getElem?_concat hy with hy | ⟨rfl, rfl⟩
    · rcases getElem?_concat hz with hz | ⟨rfl, rfl⟩
      · exact h.tokens j k y z hy hz heq
      · exact absurd heq (Db.invitationOf_none hnew hy)
    · rcases getElem?_concat hz with hz | ⟨rfl, -⟩
      · exact absurd heq.symm (Db.invitationOf_none hnew hz)
      · rfl
  · intro k y hy
    rcases getElem?_concat hy with hy | ⟨rfl, rfl⟩
    · exact h.orgs k y hy
    · exact hx.org
  · intro k y hy
    rcases getElem?_concat hy with hy | ⟨rfl, rfl⟩
    · obtain ⟨ms, hms, hadmin⟩ := h.issued k y hy
      exact ⟨ms, List.mem_cons_of_mem _ hms, hadmin⟩
    · exact ⟨db.members, List.mem_cons_self, hx.admin⟩

theorem setInvitation {f : Invitation → Invitation} (h : Inv db log)
    (hf : ∀ x : Invitation, x.Same (f x)) : Inv (db.setInvitation k f) log where
  emails := h.emails
  tokens i j y z hy hz heq := by
    obtain ⟨y₀, hy₀, hsame, -⟩ := Db.setInvitation_cases hf hy
    obtain ⟨z₀, hz₀, hsame', -⟩ := Db.setInvitation_cases hf hz
    rw [hsame, hsame'] at heq
    exact h.tokens i j y₀ z₀ hy₀ hz₀ heq
  orgs j y hy := by
    obtain ⟨y₀, hy₀, hsame, -⟩ := Db.setInvitation_cases hf hy
    rw [hsame]
    exact h.orgs j y₀ hy₀
  issued j y hy := by
    obtain ⟨y₀, hy₀, hsame, -⟩ := Db.setInvitation_cases hf hy
    rw [hsame]
    exact h.issued j y₀ hy₀
  joined := h.joined_later (Db.setInvitation_later hf)
  once := h.once

theorem addUser (h : Inv db log) (hr : db.addUser x u = some db') : Inv db' log := by
  have hl := Db.addUser_later hr
  rcases Db.addUser_cases hr with ⟨i, -, rfl⟩ | ⟨-, hnew, rfl⟩
  · exact h
  · exact
      { emails := emails_concat rfl hnew h.emails
        tokens := h.tokens
        orgs := h.orgs
        issued := h.issued
        joined := h.joined_later hl
        once := h.once }

/-- Nobody has joined by the token of an invitation whose membership can be inserted: it would be
the same membership. -/
theorem not_joined (h : Inv db log) (hx : db.MayAccept k x u)
    (hu : u = none → db.getUserByEmail x.email = none)
    (hnew : ∀ m ∈ db.members, m.team = x.team → m.user ≠ db.joining u) :
    x.token ∉ log.joined.map Prod.fst := by
  intro hmem
  obtain ⟨⟨token, m⟩, hm, rfl⟩ := List.mem_map.mp hmem
  obtain ⟨hmember, j, y, hy, htoken, hteam, hemail⟩ := h.joined _ _ hm
  obtain ⟨z, hz, hsame⟩ := hx.row
  obtain rfl : j = k := h.tokens j k y z hy hz (by rw [htoken, hsame])
  obtain rfl : y = z := Option.some.inj (hy.symm.trans hz)
  have hemail' : db.emailOf m.user = some x.email := by rw [hemail, hsame]
  have hteam' : m.team = x.team := by rw [← hteam, hsame]
  cases u with
  | some i =>
      have hi : m.user = i := h.emails _ _ _ hemail' (hx.user i rfl)
      exact hnew m hmember hteam' hi
  | none =>
      obtain ⟨w, hw, he⟩ := Option.map_eq_some_iff.mp hemail'
      exact Db.getUserByEmail_none (hu rfl) hw he

/-- An acceptance that inserts a membership. -/
theorem joinTeam {db₁ : Db} (h : Inv db log) (hx : db.MayAccept k x u)
    (hr : db.addUser x u = some db₁)
    (hj : db₁.addMember ⟨x.team, db.joining u, x.role⟩ = some db') :
    Inv db' { log with joined := (x.token, ⟨x.team, db.joining u, x.role⟩) :: log.joined } := by
  have h₁ := h.addUser hr
  have hl := Db.addUser_later hr
  obtain ⟨hnew, rfl⟩ := Db.addMember_cases hj
  obtain ⟨hmembers, -⟩ := Db.addUser_frame hr
  have huser : u = none → db.getUserByEmail x.email = none := by
    intro hu
    rcases Db.addUser_cases hr with ⟨i, hi, -⟩ | ⟨-, hnone, -⟩
    · rw [hu] at hi
      cases hi
    · exact hnone
  have hemail := Db.emailOf_joining hx hr
  have honce : x.token ∉ log.joined.map Prod.fst := by
    apply h.not_joined hx huser
    intro m hm
    rw [← hmembers] at hm
    exact hnew m hm
  refine ⟨h₁.emails, h₁.tokens, h₁.orgs, h₁.issued, ?_, List.nodup_cons.mpr ⟨honce, h.once⟩⟩
  intro token m hm
  rcases List.mem_cons.mp hm with heq | hm
  · cases heq
    obtain ⟨y, hy, hsame⟩ := (hl.mayAccept hx).row
    refine ⟨List.mem_append_right _ List.mem_cons_self, k, y, hy, ?_⟩
    rw [hsame]
    exact ⟨rfl, rfl, hemail⟩
  · obtain ⟨hmember, hrest⟩ := h₁.joined token m hm
    exact ⟨List.mem_append_left _ hmember, hrest⟩

theorem accept {time : Nat} (h : Inv db log) (hx : db.MayAccept k x u)
    (hr : db.accept k x u join time = some db') :
    Inv db' (log.add db (.acceptCommit k x u join time)) := by
  simp only [Log.add, hr, Option.isSome_some, true_and]
  obtain ⟨db₁, db₂, h₁, h₂, rfl⟩ := Db.accept_cases hr
  refine Inv.setInvitation ?_ fun _ ↦ Db.same_accepted
  rcases h₂ with ⟨rfl, h₂⟩ | ⟨rfl, rfl⟩
  · rw [if_pos rfl]
    exact h.joinTeam hx h₁ h₂
  · rw [if_neg (by decide)]
    exact h.addUser h₁

end Inv

/-- What a commit does: it writes its rows, or none. -/
theorem ReqPc.commit_cases {pc : ReqPc} (log : Log) {r : Option Db × Except DomainError Unit}
    (h : pc.commit db = some r) :
    r.1 = none ∧ log.add db pc = log ∨ ∃ db', r.1 = some db' ∧
      ((∃ orgName email, pc = .registerCommit orgName email ∧ db.register orgName email = some db') ∨
        (∃ x, pc = .inviteCommit x ∧ db.invite x = some db') ∨
        (∃ k, pc = .acceptRevoke k ∧ db' = db.revoke k) ∨
        ∃ k x u join time, pc = .acceptCommit k x u join time ∧
          db.accept k x u join time = some db') := by
  cases pc with
  | registerCommit orgName email =>
      simp only [ReqPc.commit] at h
      split at h
      · next db' hdb =>
          cases h
          exact .inr ⟨db', rfl, .inl ⟨orgName, email, rfl, hdb⟩⟩
      · next hdb =>
          cases h
          exact .inl ⟨rfl, by simp [Log.add, hdb]⟩
  | inviteCommit x =>
      simp only [ReqPc.commit] at h
      split at h
      · next db' hdb =>
          cases h
          exact .inr ⟨db', rfl, .inr (.inl ⟨x, rfl, hdb⟩)⟩
      · next hdb =>
          cases h
          exact .inl ⟨rfl, by simp [Log.add, hdb]⟩
  | acceptRevoke k =>
      cases h
      exact .inr ⟨_, rfl, .inr (.inr (.inl ⟨k, rfl, rfl⟩))⟩
  | acceptCommit k x u join time =>
      simp only [ReqPc.commit] at h
      split at h
      · next db' hdb =>
          cases h
          exact .inr ⟨db', rfl, .inr (.inr (.inr ⟨k, x, u, join, time, rfl, hdb⟩))⟩
      · next hdb =>
          cases h
          exact .inl ⟨rfl, by simp [Log.add, hdb]⟩
  | absent | registerOrg | registerUser | inviteAdmin | inviteTeam | inviteUser | inviteMember
  | acceptInvitation | acceptUser | acceptCreate | acceptMember | ended => cases h

theorem ReqPc.commit_later {pc : ReqPc} {r : Option Db × Except DomainError Unit}
    (h : pc.commit db = some r) : db.Later (r.1.getD db) := by
  rcases commit_cases .init h with ⟨hr, -⟩ | ⟨db', hr, hdb⟩
  · rw [hr]
    exact .refl
  · rw [hr, Option.getD_some]
    rcases hdb with ⟨_, _, -, hdb⟩ | ⟨_, -, hdb⟩ | ⟨_, -, rfl⟩ | ⟨_, _, _, _, _, -, hdb⟩
    · exact Db.register_later hdb
    · exact Db.invite_later hdb
    · exact Db.setInvitation_later fun _ ↦ rfl
    · exact Db.accept_later hdb

/-! ## The rule for runs -/

/-- Something that holds of a request where it begins and where it has ended. -/
structure Resting (c : Config) (Q : Db → ReqPc → Prop) : Prop where
  absent : ∀ db, Q db .absent
  start : ∀ db (r : Req), Q db (r.start c)
  ended : ∀ db r, Q db (.ended r)

/-- It is enough to look at the places of the first queries. -/
theorem Resting.of_first {Q : Db → ReqPc → Prop} (habsent : ∀ db, Q db .absent)
    (hended : ∀ db r, Q db (.ended r))
    (hregister : ∀ db orgName email, Q db (.registerOrg orgName email))
    (hinvite : ∀ db caller team email role token, Q db (.inviteAdmin caller team email role token))
    (haccept : ∀ db token, Q db (.acceptInvitation token)) : Resting c Q := by
  refine ⟨habsent, ?_, hended⟩
  intro db r
  cases r with
  | register orgName email password =>
      simp only [Req.start]
      split
      · exact hended _ _
      · split
        · exact hended _ _
        · split
          · exact hended _ _
          · exact hregister _ _ _
  | invite => exact hinvite _ _ _ _ _ _
  | acceptInvite token password =>
      simp only [Req.start]
      split
      · exact hended _ _
      · exact haccept _ _

/-- A property `P` of the database and a property `Q` of the requests hold in every state, if
queries establish `Q`, later databases keep it, and commits of requests with `Q` keep `P`. -/
theorem invariant_of_commits {g : State × Log → Act → Prop} {P : Db → Log → Prop}
    {Q : Db → ReqPc → Prop} (hinit : P .empty .init) (hrest : Resting c Q)
    (hlater : ∀ db db' pc, db.Later db' → Q db pc → Q db' pc)
    (hquery : ∀ s log i pc, g (s, log) (.query i) → P s.db log → Q s.db (s.reqs i) →
      (s.reqs i).afterQuery c s.db s.now = some pc → Q s.db pc)
    (hcommit : ∀ s log i r, g (s, log) (.commit i) → P s.db log → Q s.db (s.reqs i) →
      (s.reqs i).commit s.db = some r → P (r.1.getD s.db) (log.add s.db (s.reqs i)))
    {x : State × Log} (h : (system c).Reach g x) :
    P x.1.db x.2 ∧ ∀ i, Q x.1.db (x.1.reqs i) := by
  refine h.invariant (P := fun x ↦ P x.1.db x.2 ∧ ∀ i, Q x.1.db (x.1.reqs i))
    ⟨hinit, fun _ ↦ hrest.absent _⟩ ?_
  rintro ⟨s, log⟩ a x' ⟨hP, hQ⟩ hg hn
  obtain ⟨s', hs', rfl⟩ := Option.map_eq_some_iff.mp hn
  -- one request moves, and the others see a later database
  have hset : ∀ (s₁ : State) i pc, s₁.reqs = s.reqs → s.db.Later s₁.db → Q s₁.db pc →
      ∀ j, Q (s₁.setPc i pc).db ((s₁.setPc i pc).reqs j) := by
    intro s₁ i pc hreqs hl hpc j
    by_cases hj : j = i
    · subst hj
      simpa only [State.setPc, Function.update_self] using hpc
    · simpa only [State.setPc, Function.update_of_ne hj, hreqs] using hlater _ _ _ hl (hQ j)
  cases a with
  | tick d =>
      cases hs'
      exact ⟨hP, hQ⟩
  | call i r =>
      simp only [step] at hs'
      split at hs'
      · cases hs'
        exact ⟨hP, hset s i _ rfl .refl (hrest.start _ r)⟩
      · cases hs'
  | query i =>
      obtain ⟨pc, hpc, rfl⟩ := Option.map_eq_some_iff.mp hs'
      exact ⟨hP, hset s i pc rfl .refl (hquery s log i pc hg hP (hQ i) hpc)⟩
  | commit i =>
      obtain ⟨r, hr, rfl⟩ := Option.map_eq_some_iff.mp hs'
      exact ⟨hcommit s log i r hg hP (hQ i) hr,
        hset _ i _ rfl (ReqPc.commit_later hr) (hrest.ended _ r.2)⟩
  | raise i =>
      simp only [step] at hs'
      split at hs'
      · cases hs'
      · cases hs'
        exact ⟨hP, hset s i _ rfl .refl (hrest.ended _ _)⟩

/-- Commits keep the invariant. -/
theorem Inv.commit {pc : ReqPc} {r : Option Db × Except DomainError Unit} (h : Inv db log)
    (hpc : pc.Ok db) (hr : pc.commit db = some r) : Inv (r.1.getD db) (log.add db pc) := by
  rcases ReqPc.commit_cases log hr with ⟨hnone, hlog⟩ | ⟨db', hsome, hdb⟩
  · rw [hnone, hlog]
    exact h
  · rw [hsome, Option.getD_some]
    rcases hdb with ⟨_, _, rfl, hdb⟩ | ⟨_, rfl, hdb⟩ | ⟨_, rfl, rfl⟩ | ⟨_, _, _, _, _, rfl, hdb⟩
    · obtain ⟨he, ht, ho, hi, hj, honce⟩ := h.register hdb
      simp only [Log.add, hdb, Option.isSome_some, if_true]
      exact ⟨he, ht, ho, hi, hj, honce⟩
    · simp only [Log.add, hdb, Option.isSome_some, if_true]
      exact h.invite hpc hdb
    · exact h.setInvitation fun _ ↦ rfl
    · exact h.accept hpc hdb

end Adapta.Auth.Members
