import Mathlib.Algebra.Order.BigOperators.Group.List
import Adapta.Files.Stores
import Adapta.Datasets.EvalSets
import Adapta.Usage.Rollup

/-!
# Summaries of projects

`compute_summaries` of `adapta/services/project_summary.py`: one query for each table, grouped by
project, however many projects are asked for.  The list of a team's projects asks for all of them at
once and the page of a project for itself alone (`adapta/api/v1/projects.py`); both show the same.

The usage of seven days is the sum of the rows whose `day` is not before this moment a week ago.  A
date is compared as its midnight, so these are today and the six days before, and the seventh only at
the stroke of midnight.  The database session is in UTC.  The two counters of a row are added in the
type of their columns, so that the query fails on a row whose sum is out of range, and with it the
request.
-/

namespace Adapta.Summary

open Lib Api
open Chat (Day)
open Keys (ProjectId TeamId UserId EndpointStatus ProjectType)

/-! ## Rows -/

structure ProjectFile where
  id : Files.FileId
  project : ProjectId
  status : Files.FileStatus
deriving DecidableEq, Repr

structure ProjectChunk where
  file : Files.FileId
  index : Nat
  project : ProjectId
deriving DecidableEq, Repr

structure Dataset where
  id : Datasets.DatasetId
  project : ProjectId
  status : Datasets.DatasetStatus
deriving DecidableEq, Repr

structure Tables where
  /-- Projects, endpoints, keys and usage. -/
  usage : Usage.State
  files : List ProjectFile
  chunks : List ProjectChunk
  datasets : List Dataset
  /-- The column `projects.updated_at`. -/
  updatedAt : ProjectId → Nat

/-! ## The summary -/

structure FileSummary where
  total : Nat := 0
  indexed : Nat := 0
  chunks : Nat := 0
deriving DecidableEq, Repr

structure DatasetSummary where
  total : Nat := 0
  valid : Nat := 0
deriving DecidableEq, Repr

structure EndpointSummary where
  exists_ : Bool := false
  slug : Option String := none
  status : Option EndpointStatus := none
deriving DecidableEq, Repr

structure UsageSummary where
  requests : Nat := 0
  totalTokens : Nat := 0
deriving DecidableEq, Repr

inductive Stage where
  | awaitingData
  | indexing
  | readyToServe
  | live
deriving DecidableEq, Repr

structure ProjectSummary where
  stage : Stage
  files : FileSummary
  datasets : DatasetSummary
  endpoint : EndpointSummary
  keysActive : Nat
  usage7d : UsageSummary
  lastActivityAt : Option Nat
deriving DecidableEq, Repr

/-- `_derive_stage`. -/
def deriveStage (projectType : ProjectType) (files : FileSummary) (endpoint : EndpointSummary) :
    Stage :=
  if endpoint.exists_ ∧ endpoint.status = some .active then .live
  else if endpoint.exists_ then .readyToServe
  else if projectType = .finetune then .awaitingData
  else if 0 < files.indexed then .readyToServe
  else if 0 < files.total ∧ files.indexed = 0 then .indexing
  else .awaitingData

/-- `day >= cutoff`, for the time in microseconds. -/
def recent (now : Nat) (d : Day) : Bool := now ≤ 86400000000 * (d + 7)

namespace Tables

variable (t : Tables)

/-- Endpoints joined with keys: the project, and the key. -/
def keyRows : List (ProjectId × Keys.ApiKey) :=
  t.usage.db.endpoints.flatMap fun e ↦
    (t.usage.db.keys.filter fun k ↦ k.endpoint = e.id).map fun k ↦ (e.project, k)

/-- Endpoints joined with usage: the project, and the row. -/
def usageRows : List (ProjectId × Usage.UsageEvent) :=
  t.usage.db.endpoints.flatMap fun e ↦
    (t.usage.events.filter fun x ↦ x.1.1 = e.id).map fun x ↦ (e.project, x)

end Tables

/-- `prompt_tokens + completion_tokens` is an integer of the columns' type. -/
def inRange (x : Usage.UsageEvent) : Bool :=
  x.2.promptTokens + x.2.completionTokens ≤ Usage.maxCount

/-- The aggregate of the usage query. -/
def usageSum (rows : List (ProjectId × Usage.UsageEvent)) : UsageSummary :=
  { requests := (rows.map fun x ↦ x.2.2.requestCount).sum
    totalTokens := (rows.map fun x ↦ x.2.2.promptTokens + x.2.2.completionTokens).sum }

section

variable (t : Tables) (now : Nat) (ids : List ProjectId)

def chunkMap : ProjectId → Option Nat :=
  dictOf (groupBy ProjectChunk.project List.length (t.chunks.filter fun c ↦ c.project ∈ ids))

def fileMap : ProjectId → Option FileSummary :=
  let fileRows := groupBy ProjectFile.project
    (fun l ↦ (l.length, l.countP fun f ↦ f.status = .indexed))
    (t.files.filter fun f ↦ f.project ∈ ids)
  dictOf (fileRows.map fun x ↦
    (x.1, FileSummary.mk x.2.1 x.2.2 ((chunkMap t ids x.1).getD 0)))

def dsMap : ProjectId → Option DatasetSummary :=
  dictOf (groupBy Dataset.project
    (fun l ↦ { total := l.length, valid := l.countP fun d ↦ d.status = .valid })
    (t.datasets.filter fun d ↦ d.project ∈ ids))

def epMap : ProjectId → Option EndpointSummary :=
  dictOf ((t.usage.db.endpoints.filter fun e ↦ e.project ∈ ids).map fun e ↦
    (e.project, { exists_ := true, slug := some e.slug, status := some e.status }))

def keysMap : ProjectId → Option Nat :=
  dictOf (groupBy Prod.fst List.length (t.keyRows.filter fun x ↦ x.1 ∈ ids ∧ x.2.isActive))

/-- The rows of the usage query. -/
def usageRowsIn : List (ProjectId × Usage.UsageEvent) :=
  t.usageRows.filter fun x ↦ x.1 ∈ ids ∧ recent now x.2.1.2

/-- The usage query may fail. -/
def usageMap : Except DomainError (ProjectId → Option UsageSummary) :=
  if (usageRowsIn t now ids).all fun x ↦ inRange x.2 then
    .ok (dictOf (groupBy Prod.fst usageSum (usageRowsIn t now ids)))
  else .error .other

def projTypeMap : ProjectId → Option (ProjectType × Nat) :=
  dictOf ((t.usage.db.projects.filter fun p ↦ p.id ∈ ids).map fun p ↦
    (p.id, p.type, t.updatedAt p.id))

/-- The entry of a project, from the maps. -/
def summaryEntry (usage : ProjectId → Option UsageSummary) (p : ProjectId) : ProjectSummary :=
  let ptype := (projTypeMap t ids p).elim .rag Prod.fst
  let files := (fileMap t ids p).getD {}
  let endpoint := (epMap t ids p).getD {}
  { stage := deriveStage ptype files endpoint
    files
    datasets := (dsMap t ids p).getD {}
    endpoint
    keysActive := (keysMap t ids p).getD 0
    usage7d := (usage p).getD {}
    lastActivityAt := (projTypeMap t ids p).map Prod.snd }

/-- `compute_summaries`: the entries of the dict, in the order in which they are made. -/
def computeSummaries : Except DomainError (List (ProjectId × ProjectSummary)) := do
  if ids = [] then pure []
  else
    let usage ← usageMap t now ids
    pure (ids.map fun p ↦ (p, summaryEntry t ids usage p))

end

/-- `compute_summary`; a missing entry raises. -/
def computeSummary (t : Tables) (now : Nat) (p : ProjectId) :
    Except DomainError (Option ProjectSummary) := do
  let summaries ← computeSummaries t now [p]
  pure (dictOf summaries p)

/-- `list_projects`. -/
def listProjects (t : Tables) (now : Nat) (user : UserId) (team : TeamId) :
    Except DomainError (List (Keys.Project × Option ProjectSummary)) := do
  let _ ← t.usage.db.requireTeamMember user team
  let projects := t.usage.db.projects.filter (·.team = team)
  if projects = [] then pure []
  else
    let summaries ← computeSummaries t now (projects.map Keys.Project.id)
    pure (projects.map fun p ↦ (p, dictOf summaries p.id))

/-- `get_project`. -/
def getProject (t : Tables) (now : Nat) (user : UserId) (p : ProjectId) :
    Except DomainError (Keys.Project × Option ProjectSummary) := do
  let project ← t.usage.db.getProject p
  let _ ← t.usage.db.requireTeamMember user project.team
  let summary ← computeSummary t now p
  pure (project, summary)

/-! ## One project -/

section

variable (t : Tables) (now : Nat) (p : ProjectId)

/-- Chunks are shown with the files: a project without files has none. -/
def filesOf : FileSummary :=
  let rows := t.files.filter (·.project = p)
  { total := rows.length
    indexed := rows.countP fun f ↦ f.status = .indexed
    chunks := if rows = [] then 0 else (t.chunks.filter (·.project = p)).length }

def datasetsOf : DatasetSummary :=
  let rows := t.datasets.filter (·.project = p)
  { total := rows.length, valid := rows.countP fun d ↦ d.status = .valid }

def endpointOf : EndpointSummary :=
  match (t.usage.db.endpoints.filter (·.project = p)).getLast? with
  | none => {}
  | some e => { exists_ := true, slug := some e.slug, status := some e.status }

def projectOf : Option Keys.Project := (t.usage.db.projects.filter (·.id = p)).getLast?

def keysActiveOf : Nat := ((t.keyRows.filter (·.1 = p)).filter (·.2.isActive)).length

/-- The rows of the last seven days. -/
def usageRowsOf : List (ProjectId × Usage.UsageEvent) :=
  (t.usageRows.filter (·.1 = p)).filter fun x ↦ recent now x.2.1.2

def usageOf : UsageSummary := usageSum (usageRowsOf t now p)

/-- The sums of the query are in range. -/
def usageInRange : Bool := (usageRowsOf t now p).all fun x ↦ inRange x.2

/-- The summary of a project, from its own rows. -/
def summaryOf : ProjectSummary :=
  { stage := deriveStage ((projectOf t p).elim .rag Keys.Project.type) (filesOf t p)
      (endpointOf t p)
    files := filesOf t p
    datasets := datasetsOf t p
    endpoint := endpointOf t p
    keysActive := keysActiveOf t p
    usage7d := usageOf t now p
    lastActivityAt := (projectOf t p).map fun project ↦ t.updatedAt project.id }

end

variable {t : Tables} {now : Nat} {ids : List ProjectId} {p : ProjectId}

theorem usageSum_nil : usageSum [] = {} := rfl

/-- The aggregate, from the sum of the counters. -/
theorem usageSum_eq (p : ProjectId) (rows : List Usage.UsageEvent) :
    usageSum (rows.map fun x ↦ (p, x)) =
      { requests := (rows.map Prod.snd).sum.requestCount
        totalTokens :=
          (rows.map Prod.snd).sum.promptTokens + (rows.map Prod.snd).sum.completionTokens } := by
  induction rows with
  | nil => rfl
  | cons x rows ih =>
      simp only [usageSum, List.map_cons, List.sum_cons, UsageSummary.mk.injEq, Usage.add_def] at ih ⊢
      omega

/-- The other conditions of a query do not mind which keys it is for. -/
theorem filter_filter_mem_and {α : Type*} {key : α → ProjectId} {c : α → Bool} (hp : p ∈ ids)
    (rows : List α) : ((rows.filter fun r ↦ key r ∈ ids ∧ c r).filter fun r ↦ key r = p) =
      (rows.filter fun r ↦ key r = p).filter c := by
  rw [List.filter_filter, List.filter_filter]
  refine List.filter_congr fun r _ ↦ ?_
  by_cases h : key r = p
  · simp [h, hp]
  · simp [h]

theorem chunkMap_getD (hp : p ∈ ids) :
    (chunkMap t ids p).getD 0 = (t.chunks.filter (·.project = p)).length := by
  rw [chunkMap, dictOf_groupBy_getD (b := 0) rfl, filter_filter_mem hp]

theorem fileMap_getD (hp : p ∈ ids) : (fileMap t ids p).getD {} = filesOf t p := by
  have hvalue := dictOf_map_value (k := p) (l := groupBy ProjectFile.project
    (fun l ↦ (l.length, l.countP fun f ↦ f.status = .indexed))
    (t.files.filter fun f ↦ f.project ∈ ids))
    fun q x ↦ FileSummary.mk x.1 x.2 ((chunkMap t ids q).getD 0)
  rw [fileMap, hvalue, dictOf_groupBy, filter_filter_mem hp, chunkMap_getD hp, filesOf]
  by_cases hnil : t.files.filter (fun f ↦ f.project = p) = []
  · simp [hnil]
  · simp [hnil]

theorem dsMap_getD (hp : p ∈ ids) : (dsMap t ids p).getD {} = datasetsOf t p := by
  rw [dsMap, dictOf_groupBy_getD (b := DatasetSummary.mk 0 0) rfl, filter_filter_mem hp, datasetsOf]

theorem epMap_getD (hp : p ∈ ids) : (epMap t ids p).getD {} = endpointOf t p := by
  rw [epMap, dictOf_map_row, filter_filter_mem hp, endpointOf]
  cases (t.usage.db.endpoints.filter fun e ↦ e.project = p).getLast? with
  | none => rfl
  | some e => rfl

theorem keysMap_getD (hp : p ∈ ids) : (keysMap t ids p).getD 0 = keysActiveOf t p := by
  rw [keysMap, dictOf_groupBy_getD (b := 0) rfl, filter_filter_mem_and hp, keysActiveOf]

/-- A condition on all rows of a query is one on the rows of each key. -/
theorem all_filter_mem_and {α : Type*} (key : α → ProjectId) {c ok : α → Bool} (rows : List α) :
    ((rows.filter fun r ↦ key r ∈ ids ∧ c r).all ok) = true ↔
      ∀ q ∈ ids, (((rows.filter fun r ↦ key r = q).filter c).all ok) = true := by
  simp only [List.all_eq_true, List.mem_filter, decide_eq_true_eq]
  constructor
  · rintro h q hq r ⟨⟨hr, rfl⟩, hc⟩
    exact h r ⟨hr, hq, hc⟩
  · rintro h r ⟨hr, hmem, hc⟩
    exact h (key r) hmem r ⟨⟨hr, rfl⟩, hc⟩

theorem usageMap_eq (t : Tables) (now : Nat) (ids : List ProjectId) : usageMap t now ids =
    if ∀ q ∈ ids, usageInRange t now q = true then
      .ok (dictOf (groupBy Prod.fst usageSum (usageRowsIn t now ids)))
    else .error .other :=
  if_congr (all_filter_mem_and Prod.fst t.usageRows) rfl rfl

theorem usageMap_getD (hp : p ∈ ids) :
    (dictOf (groupBy Prod.fst usageSum (usageRowsIn t now ids)) p).getD {} = usageOf t now p := by
  rw [dictOf_groupBy_getD usageSum_nil, usageRowsIn, filter_filter_mem_and hp]
  rfl

theorem projTypeMap_of_mem (hp : p ∈ ids) : projTypeMap t ids p =
    (projectOf t p).map fun project ↦ (project.type, t.updatedAt project.id) := by
  rw [projTypeMap, dictOf_map_row, filter_filter_mem hp, projectOf]

theorem summaryEntry_eq (hp : p ∈ ids) :
    summaryEntry t ids (dictOf (groupBy Prod.fst usageSum (usageRowsIn t now ids))) p =
      summaryOf t now p := by
  rw [summaryEntry, summaryOf]
  simp only [fileMap_getD hp, dsMap_getD hp, epMap_getD hp, keysMap_getD hp, usageMap_getD hp,
    projTypeMap_of_mem hp]
  cases projectOf t p with
  | none => rfl
  | some project => rfl

/-- **One query for all projects answers as one for each.** -/
theorem computeSummaries_eq (t : Tables) (now : Nat) (ids : List ProjectId) :
    computeSummaries t now ids =
      if ∀ q ∈ ids, usageInRange t now q = true then
        .ok (ids.map fun p ↦ (p, summaryOf t now p))
      else .error .other := by
  rw [computeSummaries]
  split
  · next hnil =>
      rw [hnil, if_pos (fun q hq ↦ absurd hq List.not_mem_nil)]
      rfl
  · rw [usageMap_eq]
    split
    · refine congrArg Except.ok (List.map_congr_left fun p hp ↦ ?_)
      rw [summaryEntry_eq hp]
    · rfl

theorem dictOf_summaries (t : Tables) (now : Nat) (ids : List ProjectId) (p : ProjectId) :
    dictOf (ids.map fun p ↦ (p, summaryOf t now p)) p =
      if p ∈ ids then some (summaryOf t now p) else none :=
  dictOf_map ..

theorem computeSummary_eq (t : Tables) (now : Nat) (p : ProjectId) : computeSummary t now p =
    if usageInRange t now p = true then .ok (some (summaryOf t now p)) else .error .other := by
  rw [computeSummary, computeSummaries_eq]
  simp only [List.forall_mem_singleton]
  split
  · show Except.ok (dictOf _ p) = _
    rw [dictOf_summaries, if_pos (List.mem_singleton_self p)]
  · rfl

/-! ## Unique keys -/

/-- Ids of projects are unique, and a project has one endpoint at most. -/
structure Unique (db : Keys.Db) : Prop where
  projects : (db.projects.map Keys.Project.id).Nodup
  endpoints : (db.endpoints.map Keys.Endpoint.project).Nodup

section

variable {isValid : String → Bool} {allowed : String} {sha256 : String → String} {db db' : Keys.Db}

theorem createProject_new {user : UserId} {q : Keys.Project}
    (h : Keys.createProject isValid db user q allowed = .ok db') :
    ∃ q', q'.id ∉ db.projects.map Keys.Project.id ∧
      db' = { db with projects := q' :: db.projects } := by
  obtain ⟨_, _, h⟩ := bind_eq_ok.mp h
  split at h
  · cases h
  · split at h
    · cases h
    · next hnew =>
      cases h
      refine ⟨_, fun hmem ↦ hnew ?_, rfl⟩
      obtain ⟨r, hr, hid⟩ := List.mem_map.mp hmem
      exact List.any_eq_true.mpr ⟨r, hr, decide_eq_true hid⟩

theorem createEndpoint_new {user : UserId} {q : ProjectId} {id : Keys.EndpointId}
    (h : Keys.createEndpoint db user q id = .ok db') :
    ∃ e, e.project ∉ db.endpoints.map Keys.Endpoint.project ∧
      db' = { db with endpoints := e :: db.endpoints } := by
  obtain ⟨project, hp, h⟩ := bind_eq_ok.mp h
  obtain ⟨_, _, h⟩ := bind_eq_ok.mp h
  split at h
  · cases h
  · next hnone =>
    split at h
    · cases h
    · obtain ⟨adapter, -, h⟩ := bind_eq_ok.mp h
      simp only at h
      split at h
      · cases h
      · cases h
        refine ⟨_, fun hmem ↦ hnone ?_, rfl⟩
        obtain ⟨e, he, hq⟩ := List.mem_map.mp hmem
        rw [Keys.Db.endpointOf, List.find?_isSome]
        exact ⟨e, he, decide_eq_true hq⟩

theorem Unique.dropEndpoints (h : Unique db) (gone : Keys.Endpoint → Bool) :
    Unique (Keys.dropEndpoints db gone) where
  projects := h.projects
  endpoints := h.endpoints.sublist ((List.filter_sublist).map _)

theorem Unique.run {op : Keys.Op} (h : Unique db)
    (hn : op.run isValid allowed sha256 db = .ok db') : Unique db' := by
  cases op with
  | createProject user q =>
      obtain ⟨q', hnew, rfl⟩ := createProject_new hn
      exact ⟨List.nodup_cons.mpr ⟨hnew, h.projects⟩, h.endpoints⟩
  | deleteProject user q =>
      obtain ⟨hprojects, hendpoints, -⟩ := Keys.deleteProject_ok hn
      refine ⟨?_, ?_⟩
      · rw [hprojects]
        exact h.projects.sublist ((List.filter_sublist).map _)
      · rw [hendpoints]
        exact (h.dropEndpoints _).endpoints
  | createEndpoint user q id =>
      obtain ⟨e, hnew, rfl⟩ := createEndpoint_new hn
      exact ⟨h.projects, List.nodup_cons.mpr ⟨hnew, h.endpoints⟩⟩
  | createKey user q id name token =>
      obtain ⟨out, hout, rfl⟩ := map_eq_ok.mp hn
      rw [(Keys.createKey_ok hout).1]
      exact ⟨h.projects, h.endpoints⟩
  | revokeKey user q id =>
      obtain ⟨e, rfl⟩ := Keys.revokeKey_ok hn
      exact ⟨h.projects, h.endpoints⟩
  | setEndpoint id status adapter =>
      cases hn
      refine ⟨h.projects, ?_⟩
      have hkeep : Keys.Endpoint.project ∘ (fun e ↦ if e.id = id then { e with status, adapter }
          else e) = Keys.Endpoint.project := by
        funext e
        rw [Function.comp_apply]
        split
        · rfl
        · rfl
      rw [List.map_map, hkeep]
      exact h.endpoints
  | dropEndpoint id =>
      cases hn
      exact h.dropEndpoints _
  | other adapters chunks role =>
      cases hn
      exact ⟨h.projects, h.endpoints⟩

theorem unique_of_reachable {x : Usage.State × Usage.Ledger}
    (h : (Usage.system isValid allowed sha256).Reachable x) : Unique x.1.db := by
  have hinit : Unique Keys.Db.empty := ⟨List.nodup_nil, List.nodup_nil⟩
  refine h.invariant (P := fun x ↦ Unique x.1.db) hinit fun x a x' hx _ hn ↦ ?_
  obtain ⟨s', hs', rfl⟩ := Option.map_eq_some_iff.mp hn
  cases a with
  | table op =>
      cases hs'
      change Unique ((op.run isValid allowed sha256 x.1.db).toOption.getD x.1.db)
      cases hop : op.run isValid allowed sha256 x.1.db with
      | error e => exact hx
      | ok db' => exact hx.run hop
  | midnight =>
      cases hs'
      exact hx
  | record e p c =>
      cases hs'
      exact hx
  | commit n =>
      obtain ⟨c, -, rfl⟩ := Option.map_eq_some_iff.mp hs'
      exact hx
  | fail n =>
      obtain ⟨c, -, rfl⟩ := Option.map_eq_some_iff.mp hs'
      exact hx

end

/-! ## Runs -/

section

variable {isValid : String → Bool} {allowed : String} {sha256 : String → String}
  {l : Usage.Ledger}

/-- A loop whose rounds may raise one error. -/
theorem mapM_ite {ε α β : Type} {f : α → Except ε β} {g : α → β} {c : α → Bool} {e : ε}
    {l : List α} (h : ∀ a ∈ l, f a = if c a = true then .ok (g a) else .error e) :
    l.mapM f = if ∀ a ∈ l, c a = true then .ok (l.map g) else .error e := by
  induction l with
  | nil => rfl
  | cons a l ih =>
      rw [List.mapM_cons, h a List.mem_cons_self, ih fun b hb ↦ h b (List.mem_cons_of_mem _ hb)]
      have hcons : (∀ b ∈ a :: l, c b = true) ↔ c a = true ∧ ∀ b ∈ l, c b = true :=
        List.forall_mem_cons
      by_cases ha : c a = true
      · by_cases hl : ∀ b ∈ l, c b = true
        · rw [if_pos ha, if_pos hl, if_pos (hcons.mpr ⟨ha, hl⟩)]
          rfl
        · rw [if_pos ha, if_neg hl, if_neg fun hall ↦ hl (hcons.mp hall).2]
          rfl
      · rw [if_neg ha, if_neg fun hall ↦ ha (hcons.mp hall).1]
        rfl

/-- **The list shows what the pages of the projects show.**  Listing the projects of a team is
getting each of them. -/
theorem listProjects_eq_getProject (t : Tables) (now : Nat)
    (h : (Usage.system isValid allowed sha256).Reachable (t.usage, l)) (user : UserId)
    (team : TeamId) :
    listProjects t now user team = (do
      let _ ← t.usage.db.requireTeamMember user team
      (t.usage.db.projects.filter (·.team = team)).mapM fun p ↦ getProject t now user p.id) := by
  have hunique := (unique_of_reachable h).projects
  rw [listProjects]
  cases hrole : t.usage.db.requireTeamMember user team with
  | error e => rfl
  | ok r =>
      have hget : ∀ p ∈ t.usage.db.projects.filter (·.team = team), getProject t now user p.id =
          if usageInRange t now p.id = true then .ok (p, some (summaryOf t now p.id))
          else .error .other := by
        intro p hp
        obtain ⟨hmem, hteam⟩ := List.mem_filter.mp hp
        have hfind : t.usage.db.getProject p.id = .ok p := by
          rw [Keys.Db.getProject, find?_of_nodup hunique hmem]
        have hrole' : t.usage.db.requireTeamMember user p.team = .ok r := by
          rw [of_decide_eq_true hteam, hrole]
        rw [getProject, hfind, computeSummary_eq]
        simp only [bind, Except.bind, hrole']
        by_cases hrange : usageInRange t now p.id = true
        · rw [if_pos hrange, if_pos hrange]
          rfl
        · rw [if_neg hrange, if_neg hrange]
      simp only [bind, Except.bind]
      rw [mapM_ite (c := fun p ↦ usageInRange t now p.id) hget]
      split
      · next hnil =>
          rw [hnil, if_pos (fun p hp ↦ absurd hp List.not_mem_nil)]
          rfl
      · rw [computeSummaries_eq]
        simp only [List.forall_mem_map]
        by_cases hrange : ∀ p ∈ t.usage.db.projects.filter (·.team = team),
            usageInRange t now p.id = true
        · rw [if_pos hrange, if_pos hrange]
          refine congrArg Except.ok (List.map_congr_left fun p hp ↦ congrArg (Prod.mk p) ?_)
          rw [dictOf_summaries, if_pos (List.mem_map_of_mem hp)]
        · rw [if_neg hrange, if_neg hrange]

/-- The tokens of some calls on a day. -/
def tokensOn (calls : List Usage.Call) (d : Day) : Nat :=
  ((calls.filter (·.today = d)).map fun c ↦ c.promptTokens.toNat + c.completionTokens.toNat).sum

/-- The rows of a project, by its endpoint. -/
theorem usageRowsOf_eq (h : Unique t.usage.db) (now : Nat) (p : ProjectId) :
    usageRowsOf t now p = (t.usage.db.endpointOf p).toList.flatMap fun e ↦
      ((t.usage.events.filter fun x ↦ x.1.1 = e.id).filter fun x ↦ recent now x.1.2).map
        fun x ↦ (p, x) := by
  rw [usageRowsOf, Tables.usageRows, filter_join, filter_of_nodup h.endpoints,
    Keys.Db.endpointOf]
  cases t.usage.db.endpoints.find? fun e ↦ e.project = p with
  | none => rfl
  | some e => simp [List.filter_map, Function.comp_def]

theorem countsOf_tokens (calls : List Usage.Call) (d : Day) :
    (Usage.countsOf (calls.filter (·.today = d))).promptTokens +
      (Usage.countsOf (calls.filter (·.today = d))).completionTokens = tokensOn calls d := by
  rw [Usage.countsOf_eq, tokensOn, List.sum_map_add]

/-- The sums of the query are those of the recorded calls, day by day. -/
theorem usageInRange_iff (h : (Usage.system isValid allowed sha256).Reachable (t.usage, l))
    (now : Nat) (p : ProjectId) : usageInRange t now p = true ↔
      ∀ d, recent now d = true → tokensOn (Usage.callsOf t.usage l p) d ≤ Usage.maxCount := by
  rw [usageInRange, usageRowsOf_eq (unique_of_reachable h), Usage.callsOf]
  cases t.usage.db.endpointOf p with
  | none => simp [tokensOn]
  | some e =>
      have hperm := (Usage.inv_of_reachable h).perm_events e.id
      simp only [Option.toList_some, List.flatMap_singleton]
      generalize (l.recorded.filter fun c ↦ c.endpoint = e.id) = calls at hperm ⊢
      simp only [List.all_map, List.all_eq_true, List.mem_filter, Function.comp_apply, inRange,
        decide_eq_true_eq]
      constructor
      · intro hrows d hd
        by_cases hcalled : d ∈ calls.map Usage.Call.today
        · have hmem : ((e.id, d), Usage.countsOf (calls.filter (·.today = d))) ∈
              t.usage.events.filter fun x ↦ x.1.1 = e.id :=
            hperm.mem_iff.mpr (List.mem_map_of_mem (List.mem_dedup.mpr hcalled))
          have hle := hrows _ ⟨List.mem_filter.mp hmem |>.imp_right of_decide_eq_true, hd⟩
          rwa [countsOf_tokens] at hle
        · -- there is no row for a day without calls
          have hnone : calls.filter (·.today = d) = [] := by
            rw [List.filter_eq_nil_iff]
            intro c hc heq
            exact hcalled (of_decide_eq_true heq ▸ List.mem_map_of_mem hc)
          rw [tokensOn, hnone]
          exact Nat.zero_le _
      · rintro hdays x ⟨hx, hd⟩
        have hmem := hperm.mem_iff.mp (List.mem_filter.mpr ⟨hx.1, decide_eq_true hx.2⟩)
        obtain ⟨d, -, rfl⟩ := List.mem_map.mp hmem
        rw [countsOf_tokens]
        exact hdays d hd

/-- **The usage of a summary is that of the calls recorded in the last seven days**, and the
summaries are there unless a project has more tokens on one of these days than a column holds. -/
theorem usage7d_recorded (t : Tables) (now : Nat)
    (h : (Usage.system isValid allowed sha256).Reachable (t.usage, l)) {ids : List ProjectId}
    {p : ProjectId} (hp : p ∈ ids) :
    ((∀ q ∈ ids, ∀ d, recent now d = true →
        tokensOn (Usage.callsOf t.usage l q) d ≤ Usage.maxCount) →
      (computeSummaries t now ids).map (fun summaries ↦
          (dictOf summaries p).map ProjectSummary.usage7d) = .ok (some
        { requests := ((Usage.callsOf t.usage l p).filter (recent now ·.today)).length
          totalTokens := (((Usage.callsOf t.usage l p).filter (recent now ·.today)).map
            fun c ↦ c.promptTokens.toNat + c.completionTokens.toNat).sum })) ∧
    ((∃ q ∈ ids, ∃ d, recent now d = true ∧
        Usage.maxCount < tokensOn (Usage.callsOf t.usage l q) d) →
      computeSummaries t now ids = .error .other) := by
  have hevents := (Usage.inv_of_reachable h).events
  constructor
  · intro hrange
    rw [computeSummaries_eq, if_pos fun q hq ↦ (usageInRange_iff h now q).mpr (hrange q hq)]
    refine congrArg Except.ok ?_
    show (dictOf (ids.map fun p ↦ (p, summaryOf t now p)) p).map _ = _
    rw [dictOf_summaries, if_pos hp]
    refine congrArg some ?_
    change usageOf t now p = _
    rw [usageOf, usageRowsOf_eq (unique_of_reachable h), Usage.callsOf]
    cases t.usage.db.endpointOf p with
    | none => rfl
    | some e =>
        let calls := (l.recorded.filter (·.endpoint = e.id)).filter (recent now ·.today)
        -- the rows in question are the rollup of the calls in question
        have hrows : (t.usage.events.filter fun x ↦ x.1.1 = e.id).filter
            (fun x ↦ recent now x.1.2) = rollup (calls.map Usage.Call.event) := by
          rw [hevents, Usage.filter_rollup_event fun e' ↦ e' = e.id,
            filter_rollup (fun k : Keys.EndpointId × Day ↦ recent now k.2), List.filter_map]
          rfl
        have hcounts : (((t.usage.events.filter fun x ↦ x.1.1 = e.id).filter
            (fun x ↦ recent now x.1.2)).map Prod.snd).sum = Usage.countsOf calls := by
          rw [hrows, sum_rollup, List.map_map]
          rfl
        rw [Option.toList_some, List.flatMap_singleton, usageSum_eq, hcounts, Usage.countsOf_eq,
          List.sum_map_add]
  · rintro ⟨q, hq, d, hd, hlt⟩
    rw [computeSummaries_eq, if_neg]
    intro hrange
    exact absurd ((usageInRange_iff h now q).mp (hrange q hq) d hd) (Nat.not_le.mpr hlt)

end

/-! ## A run -/

/-- The tables of a project with one indexed file and one that has failed. -/
def deskTables (usage : Usage.State) : Tables :=
  { usage
    files := [⟨0, "3f2a-9c", .indexed⟩, ⟨1, "3f2a-9c", .failed⟩]
    chunks := [⟨0, 0, "3f2a-9c"⟩]
    datasets := []
    updatedAt := fun _ ↦ 0 }

theorem list_usageRun : ∃ x, (Usage.system (fun _ ↦ true) "" id).Reachable x ∧
    listProjects (deskTables x.1) 0 "u" "t" =
      (getProject (deskTables x.1) 0 "u" "3f2a-9c").map fun y ↦ [y] := by
  obtain ⟨x, hreach, hx⟩ := Usage.usageRun_reaches
  simp only [Prod.mk.injEq] at hx
  obtain ⟨hprojects, -, hrole, -⟩ := hx
  have hmember : (deskTables x.1).usage.db.requireTeamMember "u" "t" = .ok .admin := by
    rw [deskTables, Keys.Db.requireTeamMember, hrole]
  have hteam : (deskTables x.1).usage.db.projects.filter (·.team = "t") =
      [⟨"3f2a-9c", "t", "Help Desk", none, .rag, "qwen2.5-3b-instruct"⟩] := by
    rw [deskTables, hprojects]
    rfl
  refine ⟨x, hreach, ?_⟩
  rw [listProjects_eq_getProject (l := x.2) (deskTables x.1) 0 hreach, hmember, hteam]
  simp only [List.mapM_cons, List.mapM_nil]
  cases getProject (deskTables x.1) 0 "u" "3f2a-9c" with
  | error e => rfl
  | ok y => rfl

/-- A week after the second day, the first is not counted. -/
theorem usage7d_usageRun : ∃ x, (Usage.system (fun _ ↦ true) "" id).Reachable x ∧
    (computeSummaries (deskTables x.1) (8 * 86400000000) ["3f2a-9c"]).map (fun summaries ↦
      (dictOf summaries "3f2a-9c").map ProjectSummary.usage7d) = .ok (some ⟨1, 3⟩) := by
  obtain ⟨x, hreach, hx⟩ := Usage.usageRun_reaches
  simp only [Prod.mk.injEq] at hx
  obtain ⟨-, hendpoints, -, hrecorded⟩ := hx
  have hcalls : Usage.callsOf x.1 x.2 "3f2a-9c" = [⟨"e", 7, -1, 0⟩, ⟨"e", 1, 2, 1⟩] := by
    rw [Usage.callsOf, Keys.Db.endpointOf, hendpoints, hrecorded]
    decide
  have hrange : ∀ d, tokensOn [⟨"e", 7, -1, 0⟩, ⟨"e", 1, 2, 1⟩] d ≤ Usage.maxCount := by
    intro d
    refine (List.Sublist.sum_le_sum ((List.filter_sublist).map _) fun _ _ ↦ Nat.zero_le _).trans ?_
    decide
  have husage := (usage7d_recorded (l := x.2) (deskTables x.1) (8 * 86400000000) hreach
    (List.mem_singleton.mpr rfl : "3f2a-9c" ∈ ["3f2a-9c"])).1
  simp only [List.forall_mem_singleton, deskTables, hcalls] at husage
  exact ⟨x, hreach, husage fun d _ ↦ hrange d⟩

end Adapta.Summary
