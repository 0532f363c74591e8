import Mathlib.Algebra.Group.Nat.Defs
import Mathlib.Data.List.DropRight
import Adapta.Lib.System
import Adapta.Lib.Text

/-!
# The teacher of a synthesis

`synthesize_dataset` of `adapta/api/v1/synthesis.py` accepts a job after it has looked up the
host of the teacher's URL and found none of the addresses blocked.  The job runs later: for each
chunk `_generate` of `adapta/services/synthesis.py` posts to the URL, whose host the HTTP client
looks up again.

## What is abstracted

What a lookup answers is the action's, since the resolver may answer differently each time, and
so is what the client connects to among the answers.  An address is its number; in an answer of
`getaddrinfo` it is what `ipaddress` reads from the text without the zone, or `none`.  The host
that `urlsplit` finds in a URL, and `str.lower`, are parameters.  The authorisation of the
request and what becomes of the outputs are left out.
-/

namespace Adapta.Datasets

open Lib

/-! ## Addresses -/

/-- An address of `ipaddress`. -/
inductive Ip where
  | v4 (a : BitVec 32)
  | v6 (a : BitVec 128)
deriving DecidableEq, Repr

/-- The address is in the network: the first `len` bits agree. -/
def inNetwork {w : Nat} (network : BitVec w) (len : Nat) (a : BitVec w) : Bool :=
  a >>> (w - len) = network >>> (w - len)

/-- `is_link_local`: in `169.254.0.0/16` or `fe80::/10`. -/
def Ip.isLinkLocal : Ip → Bool
  | .v4 a => inNetwork 0xA9FE0000#32 16 a
  | .v6 a => inNetwork 0xFE800000000000000000000000000000#128 10 a

/-- `ipv4_mapped`: `::ffff:0:0/96`. -/
def Ip.ipv4Mapped : Ip → Option (BitVec 32)
  | .v4 _ => none
  | .v6 a => if a >>> 32 = 0xFFFF#128 then some (a.setWidth 32) else none

/-- `_is_blocked_address`: what cannot be read is blocked. -/
def isBlockedAddress : Option Ip → Bool
  | none => true
  | some ip => ((ip.ipv4Mapped.map Ip.v4).getD ip).isLinkLocal

/-- A link-local address, or the mapped form of one. -/
def Ip.LinkLocal : Ip → Prop
  | .v4 a => 0xA9FE0000 ≤ a.toNat ∧ a.toNat ≤ 0xA9FEFFFF
  | .v6 a => (0xFE80 * 2 ^ 112 ≤ a.toNat ∧ a.toNat < 0xFEC0 * 2 ^ 112) ∨
      (0xFFFFA9FE0000 ≤ a.toNat ∧ a.toNat ≤ 0xFFFFA9FEFFFF)

theorem inNetwork_v4 {a : BitVec 32} :
    inNetwork 0xA9FE0000#32 16 a = true ↔ 0xA9FE0000 ≤ a.toNat ∧ a.toNat ≤ 0xA9FEFFFF := by
  rw [inNetwork, decide_eq_true_iff, ← BitVec.toNat_inj, BitVec.toNat_ushiftRight,
    Nat.shiftRight_eq_div_pow]
  have hnetwork : (0xA9FE0000#32 >>> (32 - 16)).toNat = 0xA9FE := rfl
  rw [hnetwork]
  omega

theorem inNetwork_v6 {a : BitVec 128} :
    inNetwork 0xFE800000000000000000000000000000#128 10 a = true ↔
      0xFE80 * 2 ^ 112 ≤ a.toNat ∧ a.toNat < 0xFEC0 * 2 ^ 112 := by
  rw [inNetwork, decide_eq_true_iff, ← BitVec.toNat_inj, BitVec.toNat_ushiftRight,
    Nat.shiftRight_eq_div_pow]
  have hnetwork : (0xFE800000000000000000000000000000#128 >>> (128 - 10)).toNat = 0x3FA := rfl
  rw [hnetwork]
  omega

theorem isBlockedAddress_iff {ip : Ip} : isBlockedAddress (some ip) = true ↔ ip.LinkLocal := by
  cases ip with
  | v4 a => exact inNetwork_v4
  | v6 a =>
      rw [isBlockedAddress, Ip.LinkLocal, Ip.ipv4Mapped]
      split
      · rename_i hmapped
        rw [← BitVec.toNat_inj, BitVec.toNat_ushiftRight, Nat.shiftRight_eq_div_pow] at hmapped
        have hprefix : a.toNat / 2 ^ 32 = 0xFFFF := hmapped
        rw [Option.map_some, Option.getD_some, Ip.isLinkLocal, inNetwork_v4, BitVec.toNat_setWidth]
        omega
      · rename_i hmapped
        have hprefix : a.toNat / 2 ^ 32 ≠ 0xFFFF := by
          intro hdiv
          apply hmapped
          rw [← BitVec.toNat_inj, BitVec.toNat_ushiftRight, Nat.shiftRight_eq_div_pow]
          exact hdiv
        rw [Option.map_none, Option.getD_none, Ip.isLinkLocal, inNetwork_v6]
        omega

/-! ## The request -/

/-- What `urlsplit` and `str.lower` do. -/
structure UrlLib where
  /-- `urlsplit(url).hostname`, or `none` if there is none or the URL is refused. -/
  hostname : Str → Option Str
  lower : Str → Str

structure SynthesizeRequest where
  mode : Str
  task : Str
  nPairsPerChunk : Int
  teacherBaseUrl : Option Str
deriving DecidableEq, Repr

/-- `\S+`. -/
def isUnbroken (s : Str) : Bool := s ≠ [] && s.all fun c ↦ !isSpace c

/-- The pattern `^https?://\S+$`; its end may stand before a last line feed. -/
def isHttpUrl (url : Str) : Bool :=
  [str "http://", str "https://"].any fun scheme ↦
    scheme.isPrefixOf url &&
      let rest := url.drop scheme.length
      isUnbroken rest || (rest.getLast? = some (.char '\n') && isUnbroken rest.dropLast)

/-- The string of a URL that is not empty. -/
def given (url : Option Str) : Option Str := url.filter fun u ↦ u ≠ []

def checkTeacherUrl (url : Option Str) : Except String (Option Str) :=
  match given url with
  | none => .ok none
  | some u =>
      if isHttpUrl u then .ok (some u) else .error "teacher_base_url must be an http(s) URL."

def checkSynthesisArgs (req : SynthesizeRequest) : Except String Unit := do
  if req.mode ≠ str "rag_eval" ∧ req.mode ≠ str "behavior" then
    throw "mode must be 'rag_eval' or 'behavior'."
  if req.mode = str "behavior" ∧
      req.task ∉ [str "classify", str "extract", str "freeform"] then
    throw "task must be one of: classify, extract, freeform."
  if req.nPairsPerChunk < 1 ∨ 10 < req.nPairsPerChunk then
    throw "n_pairs_per_chunk must be between 1 and 10"
  let _ ← checkTeacherUrl req.teacherBaseUrl

/-- The host that is looked up. -/
def destinationHost (lib : UrlLib) (url : Str) : Str :=
  lib.lower (((lib.hostname url).getD []).rdropWhile (· = .char '.'))

/-- `check_teacher_destination`, with the answer to its lookup; it gives the addresses that it
has found. -/
def checkTeacherDestination (lib : UrlLib) (url : Option Str)
    (answer : Option (List (Option Ip))) : Except String (List (Option Ip)) :=
  match given url with
  | none => .ok []
  | some u => do
      let _ ← checkTeacherUrl (some u)
      let host := destinationHost lib u
      if host = [] ∨ host = str "metadata.google.internal" then
        throw "teacher_base_url points at a blocked host."
      match answer with
      | none => throw "teacher_base_url host does not resolve."
      | some infos =>
          if infos.any isBlockedAddress then
            throw "teacher_base_url points at a blocked address (link-local or cloud metadata)."
          else return infos

/-- A job that has been accepted. -/
structure TeacherJob where
  url : Option Str
  /-- What the lookup of the check has answered. -/
  checked : List (Option Ip)
  /-- The chunks that are still to be asked about, once they are loaded. -/
  remaining : Option Nat
deriving DecidableEq, Repr

/-- `synthesize_dataset`. -/
def synthesizeDataset (lib : UrlLib) (req : SynthesizeRequest)
    (answer : Option (List (Option Ip))) : Except String TeacherJob := do
  checkSynthesisArgs req
  let checked ← checkTeacherDestination lib req.teacherBaseUrl answer
  return ⟨req.teacherBaseUrl, checked, none⟩

/-! ## The jobs -/

/-- The URL that `_generate` posts to. -/
def completionsUrl (url : Str) : Str :=
  url.rdropWhile (· = .char '/') ++ str "/chat/completions"

/-- The accepted jobs, and the connections that have been tried. -/
structure Jobs where
  jobs : List TeacherJob
  connections : List (Str × Ip)
deriving DecidableEq, Repr

inductive JobAct where
  /-- A request, with the answer to the lookup of its check. -/
  | submit (req : SynthesizeRequest) (answer : Option (List (Option Ip)))
  /-- The background task of a job has loaded its chunks. -/
  | start (j : Nat) (chunks : Nat)
  /-- `_generate` for the next chunk, with the answer to the client's lookup, if there is one,
  and the addresses among it that the client tries. -/
  | generate (j : Nat) (answer : Option (List Ip)) (tried : List Ip)
deriving DecidableEq, Repr

namespace Jobs

variable (lib : UrlLib) (s : Jobs)

/-- The next chunk of a job: with a teacher the client connects to what it has looked up, and
without one nothing is sent. -/
def generate (j : Nat) (job : TeacherJob) (n : Nat) (answer : Option (List Ip))
    (tried : List Ip) : Option Jobs :=
  let jobs := s.jobs.set j { job with remaining := some n }
  match given job.url with
  | none => if answer = none ∧ tried = [] then some { s with jobs := jobs } else none
  | some u =>
      if tried ⊆ answer.getD [] then
        some ⟨jobs, s.connections ++ tried.map fun ip ↦ (completionsUrl u, ip)⟩
      else none

def next : JobAct → Option Jobs
  | .submit req answer =>
      match synthesizeDataset lib req answer with
      | .ok job => some { s with jobs := s.jobs ++ [job] }
      | .error _ => some s
  | .start j chunks =>
      match s.jobs[j]? with
      | some ⟨url, checked, none⟩ =>
          some { s with jobs := s.jobs.set j ⟨url, checked, some chunks⟩ }
      | _ => none
  | .generate j answer tried =>
      match s.jobs[j]? with
      | some ⟨url, checked, some (n + 1)⟩ =>
          s.generate j ⟨url, checked, some (n + 1)⟩ n answer tried
      | _ => none

/-- No connection has been tried to a link-local address. -/
def Safe : Prop := ∀ x ∈ s.connections, ¬x.2.LinkLocal

/-- The condition: the client's lookup answers what the lookup of the check has answered, or
addresses that are not blocked. -/
def fresh : JobAct → Bool
  | .generate j (some answer) _ =>
      match s.jobs[j]? with
      | some job => answer.all fun ip ↦ some ip ∈ job.checked || !isBlockedAddress (some ip)
      | none => true
  | _ => true

def Fresh (s : Jobs) (a : JobAct) : Prop := s.fresh a = true

instance (s : Jobs) (a : JobAct) : Decidable (Fresh s a) :=
  inferInstanceAs (Decidable (s.fresh a = true))

/-- No job has a blocked address among those that were checked, and no connection was made to
one. -/
structure Inv : Prop where
  checked : ∀ job ∈ s.jobs, ∀ ip, some ip ∈ job.checked → isBlockedAddress (some ip) = false
  safe : s.Safe

end Jobs

/-- Requests and their jobs. -/
def synthesisJobs (lib : UrlLib) : System Jobs JobAct where
  init := ⟨[], []⟩
  next := Jobs.next lib

section Run

variable {lib : UrlLib} {s s' : Jobs} {a : JobAct} {job : TeacherJob} {ip : Ip}
  {req : SynthesizeRequest} {answer : Option (List (Option Ip))}

/-- What the check lets through. -/
theorem checkTeacherDestination_ok {url : Option Str} {checked : List (Option Ip)}
    (h : checkTeacherDestination lib url answer = .ok checked) :
    ∀ x ∈ checked, isBlockedAddress x = false := by
  simp only [checkTeacherDestination] at h
  split at h
  · obtain rfl := Except.ok.inj h
    simp
  · rename_i u _
    cases hurl : checkTeacherUrl (some u) with
    | error message => simp [hurl, bind, Except.bind] at h
    | ok v =>
        simp only [hurl, bind, Except.bind] at h
        split at h
        · cases h
        · split at h
          · cases h
          · split at h
            · cases h
            · rename_i infos hnone
              obtain rfl := Except.ok.inj h
              intro x hx
              by_contra hblocked
              exact hnone (List.any_eq_true.mpr ⟨x, hx, by simpa using hblocked⟩)

theorem synthesizeDataset_ok (h : synthesizeDataset lib req answer = .ok job) :
    ∀ x ∈ job.checked, isBlockedAddress x = false := by
  rw [synthesizeDataset] at h
  cases hargs : checkSynthesisArgs req with
  | error message => simp [hargs, bind, Except.bind] at h
  | ok v =>
      cases hdest : checkTeacherDestination lib req.teacherBaseUrl answer with
      | error message => simp [hargs, hdest, bind, Except.bind] at h
      | ok checked =>
          simp only [hargs, hdest, bind, Except.bind] at h
          obtain rfl := Except.ok.inj h
          exact checkTeacherDestination_ok hdest

/-- A job of the table is replaced by one with the same addresses. -/
theorem Jobs.Inv.set {j : Nat} {job' : TeacherJob} (h : s.Inv) (hj : s.jobs[j]? = some job)
    (hsame : job'.checked = job.checked) : Jobs.Inv ⟨s.jobs.set j job', s.connections⟩ := by
  refine ⟨?_, h.safe⟩
  intro x hx ip hip
  rcases List.mem_or_eq_of_mem_set hx with hx | rfl
  · exact h.checked x hx ip hip
  · rw [hsame] at hip
    exact h.checked job (List.mem_of_getElem? hj) ip hip

/-- Without a teacher nothing is sent, and with one the client tries what it has looked up. -/
theorem generate_cases {j n : Nat} {looked : Option (List Ip)} {tried : List Ip}
    (h : s.generate j job n looked tried = some s') :
    (given job.url = none ∧ looked = none ∧
      s' = ⟨s.jobs.set j { job with remaining := some n }, s.connections⟩) ∨
    ∃ u, given job.url = some u ∧ tried ⊆ looked.getD [] ∧
      s' = ⟨s.jobs.set j { job with remaining := some n },
        s.connections ++ tried.map fun ip ↦ (completionsUrl u, ip)⟩ := by
  rw [Jobs.generate] at h
  split at h
  · rename_i hurl
    split at h
    · rename_i hnone
      exact Or.inl ⟨hurl, hnone.1, (Option.some.inj h).symm⟩
    · cases h
  · rename_i u hurl
    split at h
    · rename_i hsub
      exact Or.inr ⟨u, hurl, hsub, (Option.some.inj h).symm⟩
    · cases h

/-- **A step within the condition connects to no link-local address.** -/
theorem Jobs.Inv.step (h : s.Inv) (hg : Fresh s a) (hn : s.next lib a = some s') : s'.Inv := by
  cases a with
  | submit req answer =>
      rw [next] at hn
      split at hn
      · rename_i job hok
        obtain rfl := Option.some.inj hn
        refine ⟨?_, h.safe⟩
        intro x hx ip hip
        rcases List.mem_append.mp hx with hx | hx
        · exact h.checked x hx ip hip
        · obtain rfl := List.mem_singleton.mp hx
          exact synthesizeDataset_ok hok _ hip
      · obtain rfl := Option.some.inj hn
        exact h
  | start j chunks =>
      rw [next] at hn
      split at hn
      · rename_i hj
        obtain rfl := Option.some.inj hn
        exact h.set hj rfl
      · cases hn
  | generate j answer tried =>
      rw [next] at hn
      split at hn
      · rename_i url checked n hj
        have hset : Jobs.Inv ⟨s.jobs.set j ⟨url, checked, some n⟩, s.connections⟩ := h.set hj rfl
        rcases generate_cases hn with ⟨-, -, rfl⟩ | ⟨u, -, hsub, rfl⟩
        · exact hset
        · refine ⟨hset.checked, ?_⟩
          intro x hx
          rcases List.mem_append.mp hx with hx | hx
          · exact h.safe x hx
          · obtain ⟨ip, hip, rfl⟩ := List.mem_map.mp hx
            cases answer with
            | none => exact absurd (hsub hip) List.not_mem_nil
            | some answer =>
                simp only [Fresh, fresh, hj, List.all_eq_true, Bool.or_eq_true,
                  decide_eq_true_eq, Bool.not_eq_true'] at hg
                rw [← isBlockedAddress_iff, Bool.not_eq_true]
                rcases hg ip (hsub hip) with hmem | hfree
                · exact h.checked _ (List.mem_of_getElem? hj) ip hmem
                · exact hfree
      · cases hn

/-- The client may try any address of its lookup. -/
theorem exists_unsafe (hn : s.next lib a = some s') (hg : ¬Jobs.Fresh s a) :
    ∃ a' s'', s.next lib a' = some s'' ∧ ¬s''.Safe := by
  cases a with
  | submit req answer => exact absurd rfl hg
  | start j chunks => exact absurd rfl hg
  | generate j answer tried =>
      cases answer with
      | none => exact absurd rfl hg
      | some answer =>
          rw [Jobs.next] at hn
          split at hn
          · rename_i url checked n hj
            obtain ⟨ip, hip, -, hblocked⟩ : ∃ ip ∈ answer, some ip ∉ checked ∧
                isBlockedAddress (some ip) = true := by
              simpa [Jobs.Fresh, Jobs.fresh, hj] using hg
            rcases generate_cases hn with ⟨-, hnone, -⟩ | ⟨u, hu, -, -⟩
            · cases hnone
            · refine ⟨.generate j (some answer) [ip], ⟨s.jobs.set j ⟨url, checked, some n⟩,
                s.connections ++ [(completionsUrl u, ip)]⟩, ?_, ?_⟩
              · rw [Jobs.next, hj]
                simp only [Jobs.generate, hu]
                rw [if_pos (by simpa using hip)]
                rfl
              · intro hsafe
                apply hsafe (completionsUrl u, ip) (by simp)
                exact isBlockedAddress_iff.mp hblocked
          · cases hn

/-- In every run whose lookups meet the condition, no connection is made to a link-local
address; and from any step that does not meet it, one may be made. -/
theorem synthesis_safe (lib : UrlLib) :
    (∀ s, (synthesisJobs lib).Reach Jobs.Fresh s → s.Safe) ∧
      ∀ s a s', (synthesisJobs lib).Reachable s → (synthesisJobs lib).next s a = some s' →
        ¬Jobs.Fresh s a → ∃ a' s'', (synthesisJobs lib).next s a' = some s'' ∧ ¬s''.Safe := by
  refine ⟨?_, fun s a s' _ hn hg ↦ exists_unsafe hn hg⟩
  intro s hs
  exact (hs.invariant (P := Jobs.Inv) ⟨by simp [synthesisJobs], by simp [synthesisJobs, Jobs.Safe]⟩
    fun _ _ _ h hg hn ↦ h.step hg hn).safe

end Run

/-! ## A name that changes its address -/

def teacherUrl : Str := str "http://teacher.example.com/v1"

/-- The host of this URL. -/
def teacherLib : UrlLib where
  hostname url := if url = teacherUrl then some (str "teacher.example.com") else none
  lower s := s

def teacherRequest : SynthesizeRequest := ⟨str "rag_eval", str "extract", 3, some teacherUrl⟩

/-- `93.184.216.34`. -/
def publicIp : Ip := .v4 0x5DB8D822#32

/-- `169.254.169.254`. -/
def metadataIp : Ip := .v4 0xA9FEA9FE#32

/-- A job of one chunk, whose request looks the host up with another answer. -/
def teacherRun (ip : Ip) : List JobAct :=
  [.submit teacherRequest (some [some publicIp]), .start 0 1, .generate 0 (some [ip]) [ip]]

/-- `synthesis_safe` where the name moves to a private address. -/
theorem synthesis_safe_moved : ∃ s, (synthesisJobs teacherLib).Reach Jobs.Fresh s ∧
    s.connections = [(str "http://teacher.example.com/v1/chat/completions", .v4 0x0A000005#32)] ∧
    s.Safe := by
  obtain ⟨s, hs, hconn⟩ := System.Reach.of_exec (S := synthesisJobs teacherLib) (g := Jobs.Fresh)
    (l := teacherRun (.v4 0x0A000005#32)) (f := Jobs.connections)
    (b := [(str "http://teacher.example.com/v1/chat/completions", .v4 0x0A000005#32)])
    (by decide)
  exact ⟨s, hs, hconn, (synthesis_safe teacherLib).1 s hs⟩

/-- The name is public when it is checked, and the metadata server's when it is used. -/
theorem metadata_reached : ∃ s, (synthesisJobs teacherLib).Reachable s ∧
    s.connections = [(str "http://teacher.example.com/v1/chat/completions", metadataIp)] ∧
    ¬s.Safe := by
  obtain ⟨s, hs, hconn⟩ := System.Reach.of_exec (S := synthesisJobs teacherLib)
    (g := fun _ _ ↦ True) (l := teacherRun metadataIp) (f := Jobs.connections)
    (b := [(str "http://teacher.example.com/v1/chat/completions", metadataIp)])
    (by decide)
  refine ⟨s, hs, hconn, ?_⟩
  intro hsafe
  have hfree := hsafe (str "http://teacher.example.com/v1/chat/completions", metadataIp)
    (by rw [hconn]; exact List.mem_singleton_self _)
  exact hfree (isBlockedAddress_iff.mp (by decide))

end Adapta.Datasets
