import Adapta.Auth.Justified

/-!
# Members and teams of one org

A user belongs to one org, and so does a team, and every membership is meant to join a user and a
team of the same org.  But `accept_invitation` looks for the invitee by the email alone, among the
users of all orgs, and adds whom it finds to the team.  `memberships_in_org` is about the runs in
which it finds no user of another org.
-/

namespace Adapta.Auth.Members

open Lib Api

/-! ## Statement -/

/-- The org a user belongs to. -/
def Db.userOrg (db : Db) (i : UserId) : Option OrgId := db.users[i]?.map User.org

/-- The membership joins a user and a team of one org. -/
def InOrg (db : Db) (m : TeamMember) : Prop :=
  ∃ o, db.userOrg m.user = some o ∧ db.orgOf m.team = some o

/-- The condition: an acceptance whose query finds a user with the invitation's email finds one of
the invitation's org. -/
def homely (x : State × Log) : Act → Bool
  | .query i =>
      match x.1.reqs i with
      | .acceptUser _ y =>
          (x.1.db.getUserByEmail y.email).all fun j ↦ x.1.db.userOrg j = some y.org
      | _ => true
  | _ => true

def Homely (x : State × Log) (a : Act) : Prop := homely x a = true

instance (x : State × Log) (a : Act) : Decidable (Homely x a) :=
  inferInstanceAs (Decidable (homely x a = true))

/-! ## Proof -/

variable {c : Config} {db db' : Db} {log : Log} {m : TeamMember} {k : InvitationId}
  {x : Invitation} {u : Option UserId} {join : Bool} {time : Nat}

theorem Db.Later.userOrg (h : db.Later db') {i : UserId} {o : OrgId}
    (ho : db.userOrg i = some o) : db'.userOrg i = some o := by
  obtain ⟨w, hw, rfl⟩ := Option.map_eq_some_iff.mp ho
  rw [Db.userOrg, h.users i w hw, Option.map_some]

theorem InOrg.later (h : InOrg db m) (hl : db.Later db') : InOrg db' m := by
  obtain ⟨o, hu, ht⟩ := h
  exact ⟨o, hl.userOrg hu, hl.orgOf ht⟩

/-- The users that requests have found are of the invitation's org. -/
def ReqPc.Home (db : Db) : ReqPc → Prop
  | .acceptMember _ x u | .acceptCommit _ x u _ _ => ∀ i, u = some i → db.userOrg i = some x.org
  | _ => True

/-- A request knows its rows, and has found a user of the right org. -/
def ReqPc.Settled (db : Db) (pc : ReqPc) : Prop := pc.Ok db ∧ pc.Home db

theorem ReqPc.Settled.resting : Resting c ReqPc.Settled :=
  .of_first (fun _ ↦ ⟨trivial, trivial⟩) (fun _ _ ↦ ⟨trivial, trivial⟩)
    (fun _ _ _ ↦ ⟨trivial, trivial⟩) (fun _ _ _ _ _ _ ↦ ⟨trivial, trivial⟩)
    fun _ _ ↦ ⟨trivial, trivial⟩

theorem ReqPc.Settled.later {pc : ReqPc} (h : pc.Settled db) (hl : db.Later db') :
    pc.Settled db' := by
  refine ⟨hl.ok h.1, ?_⟩
  obtain ⟨-, h⟩ := h
  cases pc with
  | acceptMember | acceptCommit => exact fun i hi ↦ hl.userOrg (h i hi)
  | _ => trivial

theorem ReqPc.Settled.afterQuery {pc pc' : ReqPc} {now : Nat} (h : pc.Settled db)
    (hn : pc.afterQuery c db now = some pc')
    (hg : ∀ k x i, pc = .acceptUser k x → db.getUserByEmail x.email = some i →
      db.userOrg i = some x.org) : pc'.Settled db := by
  refine ⟨h.1.afterQuery hn, ?_⟩
  cases pc' with
  | acceptMember k x u =>
      rcases ReqPc.user_of_afterQuery hn with ⟨rfl, j, rfl, hj⟩ | ⟨rfl, rfl⟩
      · intro i hi
        cases hi
        exact hg k x j rfl hj
      · intro i hi
        cases hi
  | acceptCommit k x u join time =>
      obtain ⟨rfl, -⟩ := ReqPc.member_of_afterQuery hn
      exact h.2
  | _ => trivial

/-- Every membership is within one org. -/
structure AllInOrg (db : Db) (log : Log) : Prop where
  inv : Inv db log
  members : ∀ m ∈ db.members, InOrg db m

namespace AllInOrg

protected theorem init : AllInOrg .empty .init := ⟨.init, fun m hm ↦ by cases hm⟩

theorem register {orgName email : String} (h : AllInOrg db log)
    (hdb : db.register orgName email = some db') (m : TeamMember) (hm : m ∈ db'.members) :
    InOrg db' m := by
  have hl := Db.register_later hdb
  obtain ⟨-, rfl⟩ := Db.register_cases hdb
  rcases List.mem_append.mp hm with hm | hm
  · exact (h.members m hm).later hl
  · cases List.mem_singleton.mp hm
    refine ⟨db.orgs.length, ?_, ?_⟩
    · simp [Db.userOrg]
    · simp [Db.orgOf]

/-- Whoever joins is of the invitation's org, and so is the team. -/
theorem accept (h : AllInOrg db log) (hx : db.MayAccept k x u)
    (hhome : ∀ i, u = some i → db.userOrg i = some x.org)
    (hdb : db.accept k x u join time = some db') (m : TeamMember) (hm : m ∈ db'.members) :
    InOrg db' m := by
  have hl := Db.accept_later hdb
  obtain ⟨row, hrow, hsame⟩ := hx.row
  have hteam : db.orgOf x.team = some x.org := by
    have horg := h.inv.orgs k row hrow
    rwa [hsame] at horg
  rcases Db.accept_members hdb hm with hm | rfl
  · exact (h.members m hm).later hl
  · refine ⟨x.org, ?_, hl.orgOf hteam⟩
    rcases Db.accept_users hdb with ⟨i, hi, hjoin⟩ | hnew
    · rw [hjoin]
      exact hl.userOrg (hhome i hi)
    · rw [Db.userOrg, hnew, Option.map_some]

theorem commit {pc : ReqPc} {r : Option Db × Except DomainError Unit} (h : AllInOrg db log)
    (hpc : pc.Settled db) (hr : pc.commit db = some r) :
    AllInOrg (r.1.getD db) (log.add db pc) := by
  refine ⟨h.inv.commit hpc.1 hr, ?_⟩
  rcases ReqPc.commit_cases log hr with ⟨hnone, -⟩ | ⟨db', hsome, hdb⟩
  · rw [hnone]
    exact h.members
  · rw [hsome, Option.getD_some]
    rcases hdb with ⟨_, _, rfl, hdb⟩ | ⟨_, rfl, hdb⟩ | ⟨_, rfl, rfl⟩ | ⟨_, _, _, _, _, rfl, hdb⟩
    · exact h.register hdb
    · intro m hm
      have hl := Db.invite_later hdb
      obtain ⟨-, rfl⟩ := Db.invite_cases hdb
      exact (h.members m hm).later hl
    · exact h.members
    · exact h.accept hpc.1 hpc.2 hdb

end AllInOrg

/-- **Tenant isolation.**  In every run in which no acceptance finds a user of another org by the
invitation's email, every membership joins a user and a team of one org. -/
theorem memberships_in_org (c : Config) (x : State × Log) (h : (system c).Reach Homely x)
    (m : TeamMember) (hm : m ∈ x.1.db.members) : InOrg x.1.db m := by
  have hall : AllInOrg x.1.db x.2 := by
    refine (invariant_of_commits (P := AllInOrg) (Q := ReqPc.Settled) .init
      ReqPc.Settled.resting (fun db db' pc hl hpc ↦ hpc.later hl) ?_ ?_ h).1
    · intro s log i pc hg _ hQ hpc
      apply hQ.afterQuery hpc
      intro k y j hi hj
      simpa [Homely, homely, hi, hj] using hg
    · intro s log i r _ hP hQ hr
      exact hP.commit hQ hr
  exact hall.members m hm

/-! ## Runs -/

/-- `memberships_in_org` at a member who had no account. -/
theorem memberships_in_org_twiceAccepted : ∃ x, (system anyEmail).Reach Homely x ∧
    ⟨0, 1, .viewer⟩ ∈ x.1.db.members ∧ InOrg x.1.db ⟨0, 1, .viewer⟩ := by
  obtain ⟨x, hx, hr⟩ := System.Reach.of_exec (S := system anyEmail) (g := Homely)
    (l := twiceAccepted) (f := fun x ↦ x.1.db.members)
    (b := [⟨0, 0, .admin⟩, ⟨0, 1, .viewer⟩]) (by decide)
  have hm : ⟨0, 1, .viewer⟩ ∈ x.1.db.members := by
    rw [hr]
    decide
  exact ⟨x, hx, hm, memberships_in_org anyEmail x hx _ hm⟩

/-- The invitee registers an org before accepting. -/
def foreignAccept : List Act :=
  inviteRun ++
    ([.call 2 (.register "Other" "bob@x.org" "password"), .query 2, .query 2, .commit 2,
      .call 3 (.acceptInvite "token" "password"), .query 3, .query 3, .query 3, .commit 3] :
      List Act)

/-- The user `1` is of the org `1` and a member of the team `0`, which is of the org `0`. -/
theorem foreign_of_foreignAccept : ∃ x, (system anyEmail).Reachable x ∧
    ⟨0, 1, .viewer⟩ ∈ x.1.db.members ∧ x.1.db.userOrg 1 = some 1 ∧ x.1.db.orgOf 0 = some 0 := by
  obtain ⟨x, hx, hr⟩ := System.Reach.of_exec (S := system anyEmail) (g := fun _ _ ↦ True)
    (l := foreignAccept) (f := fun x ↦ (x.1.db.members, x.1.db.userOrg 1, x.1.db.orgOf 0))
    (b := ([⟨0, 0, .admin⟩, ⟨1, 1, .admin⟩, ⟨0, 1, .viewer⟩], some 1, some 0))
    (by decide)
  simp only [Prod.mk.injEq] at hr
  refine ⟨x, hx, by rw [hr.1]; decide, hr.2⟩

end Adapta.Auth.Members
