import Adapta.Auth.Tables

/-!
# Every membership is justified

A membership is that of the user a registration has created together with the team, or an
invitation stands behind it: accepted before it expired, for the same team and role and the
member's email, and issued by an admin of the team.

Two things can get in the way, both because the row is read long before it is written.  A request
that finds an invitation expired writes `revoked` whatever the status is by then; and one that has
found it unexpired hashes a password, and writes an `accepted_at` that may be past the expiry.
`members_justified` is about the runs in which neither happens.
-/

namespace Adapta.Auth.Members

open Lib Api

/-! ## Statement -/

/-- The invitation is accepted, and was not expired at that time. -/
structure Db.Accepted (db : Db) (k : InvitationId) (x : Invitation) : Prop where
  row : db.invitations[k]? = some x
  status : x.status = .accepted
  unexpired : ∃ time, x.acceptedAt = some time ∧ time ≤ x.expiresAt

/-- The founder of a team, or someone with an accepted invitation from an admin. -/
def Justified (db : Db) (log : Log) (m : TeamMember) : Prop :=
  m.role = .admin ∧ (m.team, m.user) ∈ log.founded ∨
    ∃ k x ms, db.Accepted k x ∧ x.team = m.team ∧ x.role = m.role ∧
      db.emailOf m.user = some x.email ∧
      (k, ms) ∈ log.issued ∧ ⟨x.team, x.invitedBy, .admin⟩ ∈ ms

/-- The condition: an expired invitation is still pending when it is revoked, and an acceptance
notes its time before the expiry. -/
def inTime (x : State × Log) : Act → Bool
  | .query i =>
      match x.1.reqs i with
      | .acceptMember _ y _ => x.1.now ≤ y.expiresAt
      | _ => true
  | .commit i =>
      match x.1.reqs i with
      | .acceptRevoke k => (x.1.db.invitations[k]?).all fun y ↦ y.status = .pending
      | _ => true
  | _ => true

def InTime (x : State × Log) (a : Act) : Prop := inTime x a = true

instance (x : State × Log) (a : Act) : Decidable (InTime x a) :=
  inferInstanceAs (Decidable (inTime x a = true))

/-! ## Proof -/

variable {c : Config} {db db' : Db} {log log' : Log} {m : TeamMember} {k : InvitationId}
  {x : Invitation} {u : Option UserId} {join : Bool} {time : Nat}

/-- A justification lasts as long as accepted invitations stay accepted. -/
theorem Justified.later (h : Justified db log m) (hl : db.Later db')
    (hacc : ∀ k x, db.Accepted k x → ∃ y, db'.Accepted k y ∧ x.Same y)
    (hfounded : ∀ p ∈ log.founded, p ∈ log'.founded)
    (hissued : ∀ p ∈ log.issued, p ∈ log'.issued) : Justified db' log' m := by
  rcases h with ⟨hrole, hfound⟩ | ⟨k, x, ms, hx, hteam, hrole, hemail, hms, hadmin⟩
  · exact .inl ⟨hrole, hfounded _ hfound⟩
  · obtain ⟨y, hy, hsame⟩ := hacc k x hx
    refine .inr ⟨k, y, ms, hy, ?_⟩
    rw [hsame]
    exact ⟨hteam, hrole, hl.emailOf hemail, hissued _ hms, hadmin⟩

/-- The acceptance of `k` keeps what was accepted, and adds `k`. -/
theorem Db.accepted_accept {j : InvitationId} {y : Invitation}
    (hdb : db.accept k x u join time = some db') (hrow : db.invitations[j]? = some y)
    (htime : j = k → time ≤ y.expiresAt) (hy : j = k ∨ db.Accepted j y) :
    ∃ z, db'.Accepted j z ∧ y.Same z := by
  have hdb' := Db.accept_invitations hdb
  by_cases hj : j = k
  · subst hj
    refine ⟨accepted time y, ⟨?_, rfl, time, rfl, htime rfl⟩, same_accepted⟩
    simp [hdb', setInvitation, hrow]
  · have hacc : db.Accepted j y := hy.resolve_left hj
    refine ⟨y, ⟨?_, hacc.status, hacc.unexpired⟩, .refl⟩
    simp [hdb', setInvitation, hrow, Ne.symm hj]

/-- The times that requests have noted. -/
def ReqPc.Noted : ReqPc → Prop
  | .acceptCommit _ x _ _ time => time ≤ x.expiresAt
  | _ => True

/-- A request knows its rows, and has noted a time before the expiry. -/
def ReqPc.Ready (db : Db) (pc : ReqPc) : Prop := pc.Ok db ∧ pc.Noted

theorem ReqPc.Ready.resting : Resting c ReqPc.Ready :=
  .of_first (fun _ ↦ ⟨trivial, trivial⟩) (fun _ _ ↦ ⟨trivial, trivial⟩)
    (fun _ _ _ ↦ ⟨trivial, trivial⟩) (fun _ _ _ _ _ _ ↦ ⟨trivial, trivial⟩)
    fun _ _ ↦ ⟨trivial, trivial⟩

/-- Only the last query of an acceptance notes a time. -/
theorem ReqPc.Ready.afterQuery {pc pc' : ReqPc} {now : Nat} (h : pc.Ready db)
    (hn : pc.afterQuery c db now = some pc')
    (hg : ∀ k x u, pc = .acceptMember k x u → now ≤ x.expiresAt) : pc'.Ready db := by
  refine ⟨h.1.afterQuery hn, ?_⟩
  cases pc' with
  | acceptCommit k x u join time =>
      obtain ⟨rfl, rfl⟩ := ReqPc.member_of_afterQuery hn
      exact hg k x u rfl
  | _ => trivial

/-- Everyone is justified by the rows as they are. -/
structure AllJustified (db : Db) (log : Log) : Prop where
  inv : Inv db log
  members : ∀ m ∈ db.members, Justified db log m

namespace AllJustified

protected theorem init : AllJustified .empty .init :=
  ⟨.init, fun m hm ↦ by cases hm⟩

theorem register {orgName email : String} (h : AllJustified db log)
    (hdb : db.register orgName email = some db') (m : TeamMember) (hm : m ∈ db'.members) :
    Justified db' { log with founded := (db.teams.length, db.users.length) :: log.founded } m := by
  have hl := Db.register_later hdb
  obtain ⟨-, rfl⟩ := Db.register_cases hdb
  rcases List.mem_append.mp hm with hm | hm
  · refine (h.members m hm).later hl (fun k x hx ↦ ⟨x, ⟨hx.row, hx.status, hx.unexpired⟩, .refl⟩)
      (fun _ ↦ List.mem_cons_of_mem _) fun _ ↦ id
  · cases List.mem_singleton.mp hm
    exact .inl ⟨rfl, List.mem_cons_self⟩

theorem invite (h : AllJustified db log) (hdb : db.invite x = some db') (m : TeamMember)
    (hm : m ∈ db'.members) :
    Justified db' { log with issued := (db.invitations.length, db.members) :: log.issued } m := by
  have hl := Db.invite_later hdb
  obtain ⟨-, rfl⟩ := Db.invite_cases hdb
  refine (h.members m hm).later hl ?_ (fun _ ↦ id) fun _ ↦ List.mem_cons_of_mem _
  intro k x hx
  exact ⟨x, ⟨getElem?_concat_of_some hx.row, hx.status, hx.unexpired⟩, .refl⟩

/-- The revoked invitation was pending, so it justified nobody. -/
theorem revoke (h : AllJustified db log)
    (hpending : ∀ y, db.invitations[k]? = some y → y.status = .pending) (m : TeamMember)
    (hm : m ∈ db.members) : Justified (db.revoke k) log m := by
  refine (h.members m hm).later (Db.setInvitation_later fun _ ↦ rfl) ?_ (fun _ ↦ id) fun _ ↦ id
  intro j x hx
  have hj : k ≠ j := by
    rintro rfl
    have hstatus := hx.status
    rw [hpending x hx.row] at hstatus
    cases hstatus
  refine ⟨x, ⟨?_, hx.status, hx.unexpired⟩, .refl⟩
  simp [Db.revoke, Db.setInvitation, hx.row, hj]

theorem accept (h : AllJustified db log) (hx : db.MayAccept k x u) (htime : time ≤ x.expiresAt)
    (hdb : db.accept k x u join time = some db') (m : TeamMember) (hm : m ∈ db'.members) :
    Justified db' (log.add db (.acceptCommit k x u join time)) m := by
  have hl := Db.accept_later hdb
  have hlog : (log.add db (.acceptCommit k x u join time)).founded = log.founded ∧
      (log.add db (.acceptCommit k x u join time)).issued = log.issued := by
    simp only [Log.add]
    split
    · exact ⟨rfl, rfl⟩
    · exact ⟨rfl, rfl⟩
  obtain ⟨row, hrow, hsame⟩ := hx.row
  have hexpires : time ≤ row.expiresAt := by
    rw [hsame]
    exact htime
  rcases Db.accept_members hdb hm with hm | rfl
  · refine (h.members m hm).later hl ?_ ?_ ?_
    · intro j y hy
      refine Db.accepted_accept hdb hy.row ?_ (.inr hy)
      intro hj
      subst hj
      cases hy.row.symm.trans hrow
      exact hexpires
    · rw [hlog.1]
      exact fun _ ↦ id
    · rw [hlog.2]
      exact fun _ ↦ id
  · obtain ⟨z, hz, hsame'⟩ := Db.accepted_accept hdb hrow (fun _ ↦ hexpires) (.inl rfl)
    obtain ⟨ms, hms, hadmin⟩ := h.inv.issued k row hrow
    have hz' : x.Same z := hsame.trans hsame'
    have hemail : db'.emailOf (db.joining u) = some x.email := by
      rcases Db.accept_users hdb with ⟨i, hi, hjoin⟩ | hnew
      · rw [hjoin]
        exact hl.emailOf (hx.user i hi)
      · rw [Db.emailOf, hnew, Option.map_some]
    refine .inr ⟨k, z, ms, hz, ?_⟩
    rw [hlog.2, hz']
    rw [hsame] at hadmin
    exact ⟨rfl, rfl, hemail, hms, hadmin⟩

theorem commit {pc : ReqPc} {r : Option Db × Except DomainError Unit} (h : AllJustified db log)
    (hpc : pc.Ready db) (hr : pc.commit db = some r)
    (hg : ∀ k, pc = .acceptRevoke k → ∀ y, db.invitations[k]? = some y → y.status = .pending) :
    AllJustified (r.1.getD db) (log.add db pc) := by
  refine ⟨h.inv.commit hpc.1 hr, ?_⟩
  rcases ReqPc.commit_cases log hr with ⟨hnone, hlog⟩ | ⟨db', hsome, hdb⟩
  · rw [hnone, hlog]
    exact h.members
  · rw [hsome, Option.getD_some]
    rcases hdb with ⟨_, _, rfl, hdb⟩ | ⟨_, rfl, hdb⟩ | ⟨_, rfl, rfl⟩ | ⟨_, _, _, _, _, rfl, hdb⟩
    · simp only [Log.add, hdb, Option.isSome_some, if_true]
      exact h.register hdb
    · simp only [Log.add, hdb, Option.isSome_some, if_true]
      exact h.invite hdb
    · exact h.revoke (hg _ rfl)
    · exact h.accept hpc.1 hpc.2 hdb

end AllJustified

theorem AllJustified.of_reach {x : State × Log} (h : (system c).Reach InTime x) :
    AllJustified x.1.db x.2 := by
  refine (invariant_of_commits (P := AllJustified) (Q := ReqPc.Ready) .init ReqPc.Ready.resting
    (fun db db' pc hl hpc ↦ ⟨hl.ok hpc.1, hpc.2⟩) ?_ ?_ h).1
  · intro s log i pc hg _ hQ hpc
    apply hQ.afterQuery hpc
    intro k y u hi
    simpa [InTime, inTime, hi] using hg
  · intro s log i r hg hP hQ hr
    apply hP.commit hQ hr
    intro k hi y hy
    simpa [InTime, inTime, hi, hy] using hg

/-- **Membership is justified.**  In every run in which an expired invitation is revoked only while
it is pending, and an acceptance notes its time before the expiry, every membership is that of a
founder or has an accepted invitation, and a token yields at most one membership. -/
theorem members_justified (c : Config) (x : State × Log) (h : (system c).Reach InTime x) :
    (∀ m ∈ x.1.db.members, Justified x.1.db x.2 m) ∧
      ∀ token, (x.2.joined.filter fun p ↦ p.1 = token).length ≤ 1 := by
  have hall := AllJustified.of_reach h
  refine ⟨hall.members, ?_⟩
  intro token
  have hcount := List.nodup_iff_count.mp hall.inv.once token
  rw [List.count_eq_countP, List.countP_map, List.countP_eq_length_filter] at hcount
  exact hcount

/-! ## Runs -/

/-- A validator that takes every address as it is. -/
def anyEmail : Config := ⟨some⟩

/-- The user `0` founds the team `0`, and invites someone for seven days. -/
def inviteRun : List Act :=
  [.call 0 (.register "Org" "ann@x.org" "password"), .query 0, .query 0, .commit 0,
    .call 1 (.invite 0 0 "bob@x.org" (some .viewer) "token"), .query 1, .query 1, .query 1,
    .commit 1]

/-- An acceptance up to its commit, of an invitation for someone without an account. -/
def acceptRun (i : ReqId) : List Act :=
  [.call i (.acceptInvite "token" "password"), .query i, .query i, .query i, .query i]

/-- The invitation is accepted on the last day; a second request with the token, which has found
it pending, ends without another membership. -/
def twiceAccepted : List Act :=
  inviteRun ++ ([.tick 600000] : List Act) ++ acceptRun 2 ++ acceptRun 3 ++
    ([.commit 2, .commit 3] : List Act)

/-- `members_justified` at two memberships. -/
theorem members_justified_twiceAccepted : ∃ x, (system anyEmail).Reach InTime x ∧
    x.1.db.members = [⟨0, 0, .admin⟩, ⟨0, 1, .viewer⟩] ∧
    (∀ m ∈ x.1.db.members, Justified x.1.db x.2 m) ∧
    ∀ token, (x.2.joined.filter fun p ↦ p.1 = token).length ≤ 1 := by
  obtain ⟨x, hx, hr⟩ := System.Reach.of_exec (S := system anyEmail) (g := InTime)
    (l := twiceAccepted) (f := fun x ↦ x.1.db.members)
    (b := [⟨0, 0, .admin⟩, ⟨0, 1, .viewer⟩]) (by decide)
  exact ⟨x, hx, hr, members_justified anyEmail x hx⟩

/-- A request finds the invitation expired while another, which came in time, is about to accept
it, and commits after that. -/
def revokedAfterAccept : List Act :=
  inviteRun ++ ([.tick inviteTtl] : List Act) ++ acceptRun 2 ++
    ([.tick 1, .call 3 (.acceptInvite "token" "password"), .query 3, .commit 2, .commit 3] :
      List Act)

/-- The viewer is a member, and the only invitation is revoked. -/
theorem unjustified_of_revokedAfterAccept : ∃ x, (system anyEmail).Reachable x ∧
    ⟨0, 1, .viewer⟩ ∈ x.1.db.members ∧ ¬Justified x.1.db x.2 ⟨0, 1, .viewer⟩ := by
  obtain ⟨x, hx, hr⟩ := System.Reach.of_exec (S := system anyEmail) (g := fun _ _ ↦ True)
    (l := revokedAfterAccept)
    (f := fun x ↦ (x.1.db.members, x.1.db.invitations.map Invitation.status))
    (b := ([⟨0, 0, .admin⟩, ⟨0, 1, .viewer⟩], [.revoked])) (by decide)
  simp only [Prod.mk.injEq] at hr
  refine ⟨x, hx, by rw [hr.1]; decide, ?_⟩
  rintro (⟨hrole, -⟩ | ⟨k, y, ms, hy, -⟩)
  · cases hrole
  · have hmem : y.status ∈ x.1.db.invitations.map Invitation.status :=
      List.mem_map_of_mem (List.mem_of_getElem? hy.row)
    rw [hr.2, hy.status] at hmem
    cases List.mem_singleton.mp hmem

end Adapta.Auth.Members
