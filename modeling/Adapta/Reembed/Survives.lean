import Adapta.Reembed.Main

/-!
# A run repairs what others left behind

Whatever calls the runs have died or raised at, a live collection is the one from the start or
one that was rebuilt and counted, and a row names the target only if it did at the start or its
collection was rebuilt.  So what a run skips needs no work, and a run that reports no failure
leaves every project it processed at the target.
-/

namespace Adapta.Reembed

open Lib

/-- The collection that a rebuild leaves. -/
def Chunks.collection (chunks : Chunks) (target : Space) (p : ProjectId) : Coll :=
  ⟨some target.model, (chunks.rows p).map (rowEntry target)⟩

namespace Stores

variable (target : Space) (s : Stores) (p : ProjectId) (c : Coll)

/-- Another collection under the temporary name. -/
def setTmp (x : Option Coll) : Stores :=
  { s with client := Function.update s.client (.reembed p) x }

/-- The live collection is deleted. -/
def dropLive : Stores :=
  { s with
    client := Function.update s.client (.live p) none
    dropped := p :: s.dropped }

/-- A collection is renamed into place. -/
def swap : Stores :=
  { s with
    client := Function.update (Function.update s.client (.reembed p) none) (.live p) (some c)
    rebuilt := p :: s.rebuilt }

/-- The row is updated. -/
def setRow : Stores :=
  { s with
    collections := s.collections.map fun row ↦
      if row.projectId = p then ⟨p, target.model, some target.dim⟩ else row }

variable {target s p c} {x : Option Coll} {q : ProjectId} {row : CollectionRow}

theorem live_ne_reembed (p q : ProjectId) : Name.live p ≠ .reembed q := by simp

theorem setTmp_live : (s.setTmp p x).client (.live q) = s.client (.live q) :=
  Function.update_of_ne (live_ne_reembed q p) x s.client

theorem setTmp_reembed : (s.setTmp p x).client (.reembed p) = x := Function.update_self ..

theorem dropLive_live_self : (s.dropLive p).client (.live p) = none := Function.update_self ..

theorem dropLive_live_of_ne (h : q ≠ p) :
    (s.dropLive p).client (.live q) = s.client (.live q) :=
  Function.update_of_ne (by simpa using h) _ _

theorem dropLive_reembed : (s.dropLive p).client (.reembed q) = s.client (.reembed q) :=
  Function.update_of_ne (live_ne_reembed p q).symm none s.client

theorem swap_live_self : (s.swap p c).client (.live p) = some c := Function.update_self ..

theorem swap_live_of_ne (h : q ≠ p) : (s.swap p c).client (.live q) = s.client (.live q) :=
  (Function.update_of_ne (by simpa using h) _ _).trans
    (Function.update_of_ne (live_ne_reembed q p) none s.client)

/-- The row of the project, and the others. -/
theorem mem_setRow (h : row ∈ (s.setRow target p).collections) :
    row = ⟨p, target.model, some target.dim⟩ ∨ (row ∈ s.collections ∧ row.projectId ≠ p) := by
  obtain ⟨row', hrow', rfl⟩ := List.mem_map.mp h
  split
  · exact Or.inl rfl
  · rename_i hne
    exact Or.inr ⟨hrow', hne⟩

theorem mem_setRow_of_ne (h : row ∈ s.collections) (hne : row.projectId ≠ p) :
    row ∈ (s.setRow target p).collections :=
  List.mem_map.mpr ⟨row, h, if_neg hne⟩

theorem map_projectId_setRow : (s.setRow target p).collections.map CollectionRow.projectId =
    s.collections.map CollectionRow.projectId := by
  rw [setRow, List.map_map]
  apply List.map_congr_left
  intro row _
  rw [Function.comp_apply]
  split
  · rename_i hrow
    exact hrow.symm
  · rfl

end Stores

/-! ## What a call does -/

/-- The effect of a call. -/
inductive Effect (target : Space) (s : Stores) (p : ProjectId) : Stage → Stores → Prop
  | rows : Effect target s p .rows s
  | count {rows} : Effect target s p (.count rows) s
  | deleteTmp {rows} : Effect target s p (.deleteTmp rows) (s.setTmp p none)
  | createTmp {rows} :
      Effect target s p (.createTmp rows) (s.setTmp p (some ⟨some target.model, []⟩))
  | upsert {rows batch rest c} : s.client (.reembed p) = some c →
      Effect target s p (.upsert rows batch rest)
        (s.setTmp p (some (c.upsert (batch.map (rowEntry target)))))
  | verify {rows c} : s.client (.reembed p) = some c → c.count = rows.length →
      Effect target s p (.verify rows) s
  | deleteLive {rows} : Effect target s p (.deleteLive rows) (s.dropLive p)
  | rename {rows c} : s.client (.reembed p) = some c → s.client (.live p) = none →
      Effect target s p (.rename rows) (s.swap p c)
  | update : Effect target s p .update (s.setRow target p)

theorem Effect.of_call {target : Space} {s s' : Stores} {p : ProjectId} {st : Stage}
    (h : call target s p st = some s') : Effect target s p st s' := by
  cases st with
  | rows => exact Option.some.inj h ▸ .rows
  | count rows => exact Option.some.inj h ▸ .count
  | deleteTmp rows =>
      obtain ⟨client, hc, hs⟩ := Option.bind_eq_some_iff.mp h
      rw [Client.deleteCollection] at hc
      split at hc
      · obtain rfl := Option.some.inj hc
        exact Option.some.inj hs ▸ .deleteTmp
      · cases hc
  | createTmp rows =>
      obtain ⟨client, hc, hs⟩ := Option.bind_eq_some_iff.mp h
      rw [Client.createCollection] at hc
      split at hc
      · cases hc
      · obtain rfl := Option.some.inj hc
        exact Option.some.inj hs ▸ .createTmp
  | upsert rows batch rest =>
      obtain ⟨client, hc, hs⟩ := Option.bind_eq_some_iff.mp h
      rw [Client.upsert] at hc
      split at hc
      · rename_i c htmp
        obtain rfl := Option.some.inj hc
        exact Option.some.inj hs ▸ .upsert htmp
      · cases hc
  | verify rows =>
      obtain ⟨c, htmp, hs⟩ := Option.bind_eq_some_iff.mp h
      split at hs
      · rename_i hcount
        exact Option.some.inj hs ▸ .verify htmp hcount
      · cases hs
  | deleteLive rows =>
      obtain ⟨client, hc, hs⟩ := Option.bind_eq_some_iff.mp h
      rw [Client.deleteCollection] at hc
      split at hc
      · obtain rfl := Option.some.inj hc
        exact Option.some.inj hs ▸ .deleteLive
      · cases hc
  | rename rows =>
      obtain ⟨client, hc, hs⟩ := Option.bind_eq_some_iff.mp h
      rw [Client.rename] at hc
      split at hc
      · rename_i c htmp hlive
        obtain rfl := Option.some.inj hc
        exact Option.some.inj hs ▸ .rename htmp hlive
      · cases hc
  | update => exact Option.some.inj h ▸ .update

/-- A call that does not return leaves the stores as they were, or has taken effect. -/
theorem mayCall_cases (target : Space) (s : Stores) (applied : Bool) (p : ProjectId) (st : Stage) :
    mayCall target s applied p st = s ∨ Effect target s p st (mayCall target s applied p st) := by
  rw [mayCall]
  split
  · cases hcall : call target s p st with
    | none => exact Or.inl rfl
    | some s' => exact Or.inr (Effect.of_call hcall)
  · exact Or.inl rfl

/-! ## The stores -/

section Stores

variable {chunks : Chunks} {target : Space} {client : Client} {collections : List CollectionRow}
  {s s' : Stores} {p : ProjectId} {st : Stage} {col : CollectionRow} {args : Args}

/-- What holds of the stores between any two calls of any run. -/
structure Sound (chunks : Chunks) (target : Space) (client : Client)
    (collections : List CollectionRow) (s : Stores) : Prop where
  /-- A live collection that no run has deleted is unchanged. -/
  kept : ∀ p c, client (.live p) = some c → p ∉ s.dropped → s.client (.live p) = some c
  rebuilt : ∀ p ∈ s.rebuilt, ∀ c, s.client (.live p) = some c → c = chunks.collection target p
  origin : ∀ p ∉ s.rebuilt, ∀ c, s.client (.live p) = some c → client (.live p) = some c
  rows : ∀ row ∈ s.collections, row ∈ collections ∨ row.projectId ∈ s.rebuilt
  unique : (s.collections.map CollectionRow.projectId).Nodup

/-- What a run has prepared for the next call. -/
def Stage.Ok (chunks : Chunks) (target : Space) (s : Stores) (p : ProjectId) : Stage → Prop
  | .rows => True
  | .count l | .deleteTmp l | .createTmp l => l = chunks.rows p
  | .upsert l batch rest =>
      l = chunks.rows p ∧ ∃ done : List Row,
        s.client (.reembed p) = some ⟨some target.model, done.map (rowEntry target)⟩ ∧
          (done ++ (batch :: rest).flatten).Sublist l
  | .verify l =>
      l = chunks.rows p ∧ ∃ done : List Row,
        s.client (.reembed p) = some ⟨some target.model, done.map (rowEntry target)⟩ ∧
          done.Sublist l
  | .deleteLive l | .rename l =>
      l = chunks.rows p ∧ s.client (.reembed p) = some (chunks.collection target p)
  | .update => p ∈ s.rebuilt ∧ ∃ c, s.client (.live p) = some c

/-- Only the live collections matter. -/
theorem Sound.setTmp {x : Option Coll} (h : Sound chunks target client collections s) :
    Sound chunks target client collections (s.setTmp p x) := by
  refine ⟨?_, ?_, ?_, h.rows, h.unique⟩
  · intro q c hc hq
    rw [Stores.setTmp_live]
    exact h.kept q c hc hq
  · intro q hq c hc
    rw [Stores.setTmp_live] at hc
    exact h.rebuilt q hq c hc
  · intro q hq c hc
    rw [Stores.setTmp_live] at hc
    exact h.origin q hq c hc

theorem Sound.dropLive (h : Sound chunks target client collections s) :
    Sound chunks target client collections (s.dropLive p) := by
  have hlive : ∀ q c, (s.dropLive p).client (.live q) = some c → s.client (.live q) = some c := by
    intro q c hc
    by_cases hq : q = p
    · subst hq
      rw [Stores.dropLive_live_self] at hc
      cases hc
    · rwa [Stores.dropLive_live_of_ne hq] at hc
  refine ⟨?_, ?_, ?_, h.rows, h.unique⟩
  · intro q c hc hq
    obtain ⟨hqp, hq⟩ := not_or.mp (mt List.mem_cons.mpr hq)
    rw [Stores.dropLive_live_of_ne hqp]
    exact h.kept q c hc hq
  · intro q hq c hc
    exact h.rebuilt q hq c (hlive q c hc)
  · intro q hq c hc
    exact h.origin q hq c (hlive q c hc)

/-- The collection that is renamed into place is the rebuilt one. -/
theorem Sound.swap (h : Sound chunks target client collections s)
    (hlive : s.client (.live p) = none) :
    Sound chunks target client collections (s.swap p (chunks.collection target p)) := by
  refine ⟨?_, ?_, ?_, ?_, h.unique⟩
  · intro q c hc hq
    have hkept := h.kept q c hc hq
    by_cases hqp : q = p
    · subst hqp
      rw [hlive] at hkept
      cases hkept
    · rw [Stores.swap_live_of_ne hqp]
      exact hkept
  · intro q hq c hc
    by_cases hqp : q = p
    · subst hqp
      rw [Stores.swap_live_self] at hc
      exact (Option.some.inj hc).symm
    · rw [Stores.swap_live_of_ne hqp] at hc
      exact h.rebuilt q ((List.mem_cons.mp hq).resolve_left hqp) c hc
  · intro q hq c hc
    obtain ⟨hqp, hq⟩ := not_or.mp (mt List.mem_cons.mpr hq)
    rw [Stores.swap_live_of_ne hqp] at hc
    exact h.origin q hq c hc
  · intro row hrow
    exact (h.rows row hrow).imp_right (List.mem_cons_of_mem p)

/-- The row is updated after the collection has been rebuilt. -/
theorem Sound.setRow (h : Sound chunks target client collections s) (hp : p ∈ s.rebuilt) :
    Sound chunks target client collections (s.setRow target p) := by
  refine ⟨h.kept, h.rebuilt, h.origin, ?_, ?_⟩
  · intro row hrow
    rcases Stores.mem_setRow hrow with rfl | ⟨hrow, -⟩
    · exact Or.inr hp
    · exact h.rows row hrow
  · rw [Stores.map_projectId_setRow]
    exact h.unique

/-- **A call keeps the stores sound**, if the run has prepared it. -/
theorem Sound.call (h : Sound chunks target client collections s) (hst : st.Ok chunks target s p)
    (hcall : Effect target s p st s') : Sound chunks target client collections s' := by
  cases hcall with
  | rows => exact h
  | count => exact h
  | deleteTmp => exact h.setTmp
  | createTmp => exact h.setTmp
  | upsert _ => exact h.setTmp
  | verify _ _ => exact h
  | deleteLive => exact h.dropLive
  | rename htmp hlive =>
      rw [hst.2] at htmp
      obtain rfl := Option.some.inj htmp
      exact h.swap hlive
  | update => exact h.setRow hst.1

end Stores

/-! ## The run -/

section Run

variable {chunks : Chunks} {target : Space} {client : Client} {collections : List CollectionRow}
  {s s' : Stores} {p : ProjectId} {st : Stage} {col : CollectionRow} {args : Args} {r : Run}
  {rows done : List Row} {rest : List (List Row)}

/-- The row names the target, and there is a live collection. -/
def Done (target : Space) (s : Stores) (row : CollectionRow) : Prop :=
  row.Names target ∧ ∃ c, s.client (.live row.projectId) = some c

/-- What must hold of the stores for a run to go on so. -/
def Follow.Ok (chunks : Chunks) (target : Space) (s : Stores) (args : Args)
    (col : CollectionRow) : Follow → Prop
  | .goto st => st.Ok chunks target s col.projectId ∧ col ∈ s.collections
  | .done =>
      args.dryRun = false → ∀ row ∈ s.collections, row.projectId = col.projectId → Done target s row
  | .failed => True

/-- Two rows of one project are one row. -/
theorem Sound.eq_of_projectId (h : Sound chunks target client collections s)
    {row row' : CollectionRow} (hrow : row ∈ s.collections) (hrow' : row' ∈ s.collections)
    (hid : row.projectId = row'.projectId) : row = row' :=
  List.inj_on_of_nodup_map h.unique hrow hrow' hid

/-- What is skipped is done. -/
theorem afterCount_ok (h : Sound chunks target client collections s) (hcol : col ∈ s.collections)
    (hrows : rows = chunks.rows col.projectId) {n : Option Nat}
    (hn : n ≠ none → ∃ c, s.client (.live col.projectId) = some c) :
    (afterCount target args col rows n).Ok chunks target s args col := by
  rw [afterCount]
  split
  · split
    · rename_i hdry
      intro hno
      rw [hdry] at hno
      cases hno
    · exact ⟨hrows, hcol⟩
  · rename_i hskip
    intro _ row hrow hid
    obtain rfl := h.eq_of_projectId hrow hcol hid
    simp only [needsReembed, Bool.or_eq_true, Bool.not_eq_true', not_or,
      Bool.not_eq_false, Bool.and_eq_true, decide_eq_true_eq] at hskip
    obtain ⟨-, ⟨hmodel, hdim⟩, hcount⟩ := hskip
    exact ⟨⟨hmodel, hdim⟩, hn (by simp [hcount])⟩

/-- The batches hold the rows, or nothing. -/
theorem flatten_batches {batchSize : Int} {bs : List (List Row)}
    (h : batches batchSize rows = some bs) : bs.flatten.Sublist rows := by
  rw [batches] at h
  split at h
  · cases h
  · split at h
    · obtain rfl := Option.some.inj h
      exact List.nil_sublist rows
    · obtain rfl := Option.some.inj h
      rw [flatten_slices (by omega)]

theorem nextBatch_ok (hrows : rows = chunks.rows p)
    (htmp : s.client (.reembed p) = some ⟨some target.model, done.map (rowEntry target)⟩)
    (hsub : (done ++ rest.flatten).Sublist rows) :
    (nextBatch rows rest).Ok chunks target s p := by
  cases rest with
  | nil => exact ⟨hrows, done, htmp, by simpa using hsub⟩
  | cons batch rest => exact ⟨hrows, done, htmp, hsub⟩

theorem Chunks.nodup_of_sublist (h : done.Sublist (chunks.rows p)) : (done.map Row.id).Nodup :=
  (h.map Row.id).nodup (chunks.nodup p)

/-- As many rows as there are chunks are the chunks. -/
theorem eq_collection_of_count {c : Coll} (hrows : rows = chunks.rows p)
    (hc : c = ⟨some target.model, done.map (rowEntry target)⟩) (hsub : done.Sublist rows)
    (hcount : c.count = rows.length) : c = chunks.collection target p := by
  subst hc
  have hlen : done.length = rows.length := by simpa [Coll.count] using hcount
  rw [hsub.eq_of_length hlen, hrows, Chunks.collection]

/-- A call that returns has prepared the next one. -/
theorem resume_ok (h : Sound chunks target client collections s) (hcol : col ∈ s.collections)
    (hst : st.Ok chunks target s col.projectId) (hcall : Effect target s col.projectId st s') :
    (resume chunks target args col s' st).Ok chunks target s' args col := by
  cases hcall with
  | rows => exact ⟨rfl, hcol⟩
  | count =>
      refine afterCount_ok h hcol hst ?_
      intro hn
      cases hc : s.client (.live col.projectId) with
      | none => simp [hc] at hn
      | some c => exact ⟨c, rfl⟩
  | deleteTmp => exact ⟨hst, hcol⟩
  | createTmp =>
      rw [resume]
      split
      · trivial
      · rename_i bs hbs
        have hsub := flatten_batches hbs
        rw [← List.nil_append bs.flatten] at hsub
        exact ⟨nextBatch_ok hst Stores.setTmp_reembed hsub, hcol⟩
  | upsert htmp =>
      obtain ⟨hrows, done, htmp', hsub⟩ := hst
      rw [htmp'] at htmp
      obtain rfl := Option.some.inj htmp
      rw [List.flatten_cons, ← List.append_assoc] at hsub
      refine ⟨nextBatch_ok hrows ?_ hsub, hcol⟩
      rw [Stores.setTmp_reembed, upsert_rows]
      rw [hrows] at hsub
      exact Chunks.nodup_of_sublist ((List.sublist_append_left _ _).trans hsub)
  | verify htmp hcount =>
      obtain ⟨hrows, done, htmp', hsub⟩ := hst
      rw [htmp'] at htmp
      have hc := Option.some.inj htmp.symm
      refine ⟨⟨hrows, ?_⟩, hcol⟩
      rw [htmp', ← hc, eq_collection_of_count hrows hc hsub hcount]
  | deleteLive =>
      refine ⟨⟨hst.1, ?_⟩, hcol⟩
      rw [Stores.dropLive_reembed]
      exact hst.2
  | rename htmp hlive => exact ⟨⟨List.mem_cons_self, _, Stores.swap_live_self⟩, hcol⟩
  | update =>
      intro _ row hrow hid
      rcases Stores.mem_setRow hrow with rfl | ⟨-, hne⟩
      · exact ⟨⟨rfl, rfl⟩, hst.2⟩
      · exact absurd hid hne

/-- So has one that raises inside a `try` of its own. -/
theorem afterRaise_ok (h : Sound chunks target client collections s) (hcol : col ∈ s.collections)
    (hst : st.Ok chunks target s col.projectId)
    (hcall : s' = s ∨ Effect target s col.projectId st s') :
    (afterRaise target args col st).Ok chunks target s' args col := by
  cases st with
  | count rows =>
      obtain rfl : s' = s := by
        rcases hcall with rfl | hcall
        · rfl
        · cases hcall
          rfl
      exact afterCount_ok h hcol hst fun hn ↦ absurd rfl hn
  | deleteTmp rows =>
      rcases hcall with rfl | hcall
      · exact ⟨hst, hcol⟩
      · cases hcall
        exact ⟨hst, hcol⟩
  | deleteLive rows =>
      rcases hcall with rfl | hcall
      · exact ⟨hst, hcol⟩
      · have hok : (resume chunks target args col s' (.deleteLive rows)).Ok chunks target s' args
            col := resume_ok h hcol hst hcall
        exact hok
  | rows => trivial
  | createTmp rows => trivial
  | upsert rows batch rest => trivial
  | verify rows => trivial
  | rename rows => trivial
  | update => trivial

/-- A call at one project leaves the others alone. -/
theorem Effect.frame (h : Effect target s p st s') :
    (∀ q ≠ p, s'.client (.live q) = s.client (.live q)) ∧
      ∀ row, row.projectId ≠ p → (row ∈ s'.collections ↔ row ∈ s.collections) := by
  cases h with
  | rows => exact ⟨fun _ _ ↦ rfl, fun _ _ ↦ Iff.rfl⟩
  | count => exact ⟨fun _ _ ↦ rfl, fun _ _ ↦ Iff.rfl⟩
  | deleteTmp => exact ⟨fun _ _ ↦ Stores.setTmp_live, fun _ _ ↦ Iff.rfl⟩
  | createTmp => exact ⟨fun _ _ ↦ Stores.setTmp_live, fun _ _ ↦ Iff.rfl⟩
  | upsert _ => exact ⟨fun _ _ ↦ Stores.setTmp_live, fun _ _ ↦ Iff.rfl⟩
  | verify _ _ => exact ⟨fun _ _ ↦ rfl, fun _ _ ↦ Iff.rfl⟩
  | deleteLive => exact ⟨fun _ hq ↦ Stores.dropLive_live_of_ne hq, fun _ _ ↦ Iff.rfl⟩
  | rename _ _ => exact ⟨fun _ hq ↦ Stores.swap_live_of_ne hq, fun _ _ ↦ Iff.rfl⟩
  | update =>
      refine ⟨fun _ _ ↦ rfl, fun row hne ↦ ⟨?_, fun hrow ↦ Stores.mem_setRow_of_ne hrow hne⟩⟩
      intro hrow
      rcases Stores.mem_setRow hrow with rfl | ⟨hrow, -⟩
      · exact absurd rfl hne
      · exact hrow

/-- What holds of a run in its loop. -/
structure Run.Inv (chunks : Chunks) (target : Space) (s : Stores) (r : Run) : Prop where
  /-- The collections that remain are still as they were read. -/
  cols : ∀ col ∈ r.cols, col ∈ s.collections
  distinct : (r.cols.map CollectionRow.projectId).Nodup
  stage : ∀ col ∈ r.cols.head?, r.stage.Ok chunks target s col.projectId
  /-- Without a failure, what has been processed is done. -/
  done : r.failed = 0 → r.args.dryRun = false → ∀ row ∈ s.collections, r.args.selects row →
    row.projectId ∈ r.cols.map CollectionRow.projectId ∨ Done target s row

/-- **A run that goes on keeps its invariant.** -/
theorem Run.Inv.follow {f : Follow} (h : r.Inv chunks target s) {cols : List CollectionRow}
    (hcols : r.cols = col :: cols)
    (hlive : ∀ q ≠ col.projectId, s'.client (.live q) = s.client (.live q))
    (hrows : ∀ row, row.projectId ≠ col.projectId →
      (row ∈ s'.collections ↔ row ∈ s.collections))
    (hf : f.Ok chunks target s' r.args col) : (r.follow f).Inv chunks target s' := by
  have hdistinct := h.distinct
  rw [hcols, List.map_cons, List.nodup_cons] at hdistinct
  have hrest : ∀ col' ∈ cols, col' ∈ s'.collections := by
    intro col' hcol'
    refine (hrows col' ?_).mpr (h.cols col' (hcols ▸ List.mem_cons_of_mem _ hcol'))
    rintro heq
    exact hdistinct.1 (heq ▸ List.mem_map_of_mem hcol')
  have hdone : r.failed = 0 → r.args.dryRun = false → ∀ row ∈ s'.collections,
      r.args.selects row → row.projectId ≠ col.projectId →
        row.projectId ∈ cols.map CollectionRow.projectId ∨ Done target s' row := by
    intro hfailed hdry row hrow hsel hne
    rcases h.done hfailed hdry row ((hrows row hne).mp hrow) hsel with hmem | ⟨hnames, hc⟩
    · rw [hcols, List.map_cons, List.mem_cons] at hmem
      exact Or.inl (hmem.resolve_left hne)
    · refine Or.inr ⟨hnames, ?_⟩
      rwa [hlive _ hne]
  cases f with
  | goto st =>
      refine ⟨?_, h.distinct, ?_, ?_⟩
      · intro col' hcol'
        rw [Run.follow, hcols] at hcol'
        rcases List.mem_cons.mp hcol' with rfl | hcol'
        · exact hf.2
        · exact hrest col' hcol'
      · intro col' hcol'
        rw [Run.follow, hcols] at hcol'
        obtain rfl := Option.some.inj hcol'
        exact hf.1
      · intro hfailed hdry row hrow hsel
        rw [Run.follow, hcols, List.map_cons]
        by_cases hid : row.projectId = col.projectId
        · exact Or.inl (hid ▸ List.mem_cons_self)
        · exact (hdone hfailed hdry row hrow hsel hid).imp_left (List.mem_cons_of_mem _)
  | done =>
      refine ⟨?_, ?_, fun _ _ ↦ trivial, ?_⟩
      · simpa [Run.follow, hcols] using hrest
      · simpa [Run.follow, hcols] using hdistinct.2
      · intro hfailed hdry row hrow hsel
        rw [Run.follow, hcols, List.tail_cons]
        by_cases hid : row.projectId = col.projectId
        · exact Or.inr (hf hdry row hrow hid)
        · exact hdone hfailed hdry row hrow hsel hid
  | failed =>
      refine ⟨?_, ?_, fun _ _ ↦ trivial, ?_⟩
      · simpa [Run.follow, hcols] using hrest
      · simpa [Run.follow, hcols] using hdistinct.2
      · intro hfailed
        exact absurd hfailed (Nat.succ_ne_zero _)

/-- What holds of the last run. -/
def Phase.Ok (chunks : Chunks) (target : Space) (s : Stores) : Phase → Prop
  | .idle => True
  | .running r => r.Inv chunks target s
  | .ended args failed =>
      failed = 0 → args.dryRun = false → ∀ row ∈ s.collections, args.selects row → Done target s row

/-- **The invariant of any number of runs.** -/
def State.Inv (chunks : Chunks) (target : Space) (client : Client)
    (collections : List CollectionRow) (x : State) : Prop :=
  Sound chunks target client collections x.stores ∧ x.phase.Ok chunks target x.stores

variable {x x' : State} {a : Act}

/-- A call that does not return leaves the stores sound. -/
theorem Sound.mayCall {applied : Bool} (h : Sound chunks target client collections s)
    (hst : st.Ok chunks target s p) :
    Sound chunks target client collections (mayCall target s applied p st) := by
  rcases mayCall_cases target s applied p st with heq | hcall
  · rw [heq]
    exact h
  · exact h.call hst hcall

theorem inv_stepAt {cols : List CollectionRow} (h : Sound chunks target client collections s)
    (hr : r.Inv chunks target s) (hcols : r.cols = col :: cols)
    (hn : stepAt chunks target s r col a = some x') :
    x'.Inv chunks target client collections := by
  have hcol := hr.cols col (hcols ▸ List.mem_cons_self)
  have hst := hr.stage col (by simp [hcols])
  cases a with
  | start args cols => cases hn
  | call =>
      rw [stepAt] at hn
      split at hn
      · rename_i s' hcall
        obtain rfl := Option.some.inj hn
        have heff := Effect.of_call hcall
        exact ⟨h.call hst heff, hr.follow hcols heff.frame.1 heff.frame.2
          (resume_ok h hcol hst heff)⟩
      · obtain rfl := Option.some.inj hn
        exact ⟨h, hr.follow hcols (fun _ _ ↦ rfl) (fun _ _ ↦ Iff.rfl)
          (afterRaise_ok h hcol hst (Or.inl rfl))⟩
  | raise applied =>
      obtain rfl := Option.some.inj hn
      refine ⟨h.mayCall hst, ?_⟩
      have hcases := mayCall_cases target s applied col.projectId r.stage
      have hok : (afterRaise target r.args col r.stage).Ok chunks target
          (mayCall target s applied col.projectId r.stage) r.args col :=
        afterRaise_ok h hcol hst hcases
      rcases hcases with heq | heff
      · rw [heq] at hok ⊢
        exact hr.follow hcols (fun _ _ ↦ rfl) (fun _ _ ↦ Iff.rfl) hok
      · exact hr.follow hcols heff.frame.1 heff.frame.2 hok
  | crash applied =>
      obtain rfl := Option.some.inj hn
      exact ⟨h.mayCall hst, trivial⟩

theorem inv_stepRun (h : Sound chunks target client collections s) (hr : r.Inv chunks target s)
    (hn : stepRun chunks target s r a = some x') : x'.Inv chunks target client collections := by
  simp only [stepRun] at hn
  split at hn
  · rename_i col cols hcols
    exact inv_stepAt h hr hcols hn
  · rename_i hnil
    cases a with
    | start args cols => cases hn
    | call =>
        obtain rfl := Option.some.inj hn
        refine ⟨h, ?_⟩
        intro hfailed hdry row hrow hsel
        simpa [hnil] using hr.done hfailed hdry row hrow hsel
    | raise applied =>
        obtain rfl := Option.some.inj hn
        exact ⟨h, trivial⟩
    | crash applied =>
        obtain rfl := Option.some.inj hn
        exact ⟨h, trivial⟩

/-- A run starts with every collection that it selects before it. -/
theorem inv_start (h : Sound chunks target client collections s) (hn : start s a = some x') :
    x'.Inv chunks target client collections := by
  cases a with
  | start args cols =>
      rw [start] at hn
      split at hn
      · rename_i hperm
        obtain rfl := Option.some.inj hn
        refine ⟨h, ?_, ?_, fun _ _ ↦ trivial, ?_⟩
        · intro col hcol
          exact List.mem_of_mem_filter (hperm.subset hcol)
        · have hsub : ((s.collections.filter args.selects).map CollectionRow.projectId).Nodup :=
            (List.filter_sublist.map _).nodup h.unique
          exact (hperm.map _).symm.nodup hsub
        · intro _ _ row hrow hsel
          exact Or.inl (List.mem_map_of_mem
            (hperm.symm.subset (List.mem_filter.mpr ⟨hrow, hsel⟩)))
      · cases hn
  | call => cases hn
  | raise applied => cases hn
  | crash applied => cases hn

theorem inv_next (h : x.Inv chunks target client collections)
    (hn : (runs chunks target client collections).next x a = some x') :
    x'.Inv chunks target client collections := by
  obtain ⟨hs, hp⟩ := h
  simp only [runs] at hn
  split at hn
  · rename_i r hphase
    rw [hphase] at hp
    exact inv_stepRun hs hp hn
  · exact inv_start hs hn
  · exact inv_start hs hn

end Run

/-! ## Every run -/

section Runs

variable {chunks : Chunks} {target : Space} {client : Client} {collections : List CollectionRow}
  {x : State} {args : Args}

/-- The stores before the first run: a live collection has the ids of the chunks, and its row
names what the vectors were built with. -/
structure Indexed (chunks : Chunks) (client : Client) (collections : List CollectionRow) :
    Prop where
  /-- `project_id` is unique. -/
  unique : (collections.map CollectionRow.projectId).Nodup
  ids : ∀ row ∈ collections, ∀ c, client (.live row.projectId) = some c →
    (c.entries.map Entry.id).Perm ((chunks.rows row.projectId).map Row.id)
  names : ∀ row ∈ collections, ∀ c, client (.live row.projectId) = some c →
    ∀ e ∈ c.entries, row.Names e.space

/-- A project is at the target: its collection holds exactly the chunks' ids, embedded under
the target, and the row and the metadata name it.  The metadata of a collection that no run had
to rebuild are those it was created with, which name the model of the row then. -/
structure Migrated (chunks : Chunks) (target : Space) (client : Client) (s : Stores)
    (row : CollectionRow) : Prop where
  names : row.Names target
  live : ∃ c, s.client (.live row.projectId) = some c ∧
    (c.entries.map Entry.id).Perm ((chunks.rows row.projectId).map Row.id) ∧
    (∀ e ∈ c.entries, e.space = target) ∧
    (row.projectId ∈ s.rebuilt ∨ (∀ c₀, client (.live row.projectId) = some c₀ →
      c₀.embeddingModel = some row.embeddingModel) → c.embeddingModel = some target.model)

theorem inv_init (h : Indexed chunks client collections) :
    (runs chunks target client collections).init.Inv chunks target client collections := by
  refine ⟨⟨fun _ _ hc _ ↦ hc, ?_, fun _ _ _ hc ↦ hc, fun _ hrow ↦ Or.inl hrow, h.unique⟩, trivial⟩
  intro p hp
  cases hp

theorem runInv_of_reachable (h : Indexed chunks client collections)
    (hx : (runs chunks target client collections).Reachable x) :
    x.Inv chunks target client collections :=
  hx.invariant (P := State.Inv chunks target client collections) (inv_init h)
    fun _ _ _ hs _ hn ↦ inv_next hs hn

/-- What is done is at the target. -/
theorem migrated_of_done {s : Stores} {row : CollectionRow}
    (h : Indexed chunks client collections) (hs : Sound chunks target client collections s)
    (hrow : row ∈ s.collections) (hd : Done target s row) :
    Migrated chunks target client s row := by
  obtain ⟨hnames, c, hc⟩ := hd
  refine ⟨hnames, c, hc, ?_⟩
  by_cases hp : row.projectId ∈ s.rebuilt
  · obtain rfl := hs.rebuilt _ hp c hc
    refine ⟨?_, ?_, fun _ ↦ rfl⟩
    · simp [Chunks.collection, rowEntry, Function.comp_def]
    · intro e he
      obtain ⟨r, -, rfl⟩ := List.mem_map.mp he
      rfl
  · have hold := hs.origin _ hp c hc
    have hrow := (hs.rows row hrow).resolve_right hp
    refine ⟨h.ids row hrow c hold, ?_, ?_⟩
    · intro e he
      obtain ⟨hmodel, hdim⟩ := h.names row hrow c hold e he
      rw [hnames.1] at hmodel
      rw [hnames.2] at hdim
      exact Space.ext hmodel.symm (Option.some.inj hdim).symm
    · rintro (hmem | hmeta)
      · exact absurd hmem hp
      · rw [hmeta c hold, hnames.1]

/-- After any number of runs, each of which may die or fail anywhere, a run that reports no
failure has brought every project it processed to the target; and until a run deletes it, a
live collection is what it was. -/
theorem runs_survive (h : Indexed chunks client collections)
    (hx : (runs chunks target client collections).Reachable x) :
    (∀ args, x.phase = .ended args 0 → args.dryRun = false →
      ∀ row ∈ x.stores.collections, args.selects row →
        Migrated chunks target client x.stores row) ∧
    ∀ p c, client (.live p) = some c → p ∉ x.stores.dropped →
      x.stores.client (.live p) = some c := by
  obtain ⟨hs, hp⟩ := runInv_of_reachable h hx
  refine ⟨?_, hs.kept⟩
  intro args hphase hdry row hrow hsel
  rw [hphase] at hp
  exact migrated_of_done h hs hrow (hp rfl hdry row hrow hsel)

/-- A project of one chunk. -/
def priceRow : Row := ⟨str "f_0", str "Price: 120", 0, str "f", str "a.txt"⟩

def priceChunks : Chunks := ⟨fun _ ↦ [priceRow], fun _ ↦ List.nodup_singleton _⟩

/-- Its collection, embedded under `sp`, with `m` in its metadata. -/
def priceClient (m : Option Model) (sp : Space) : Client
  | .live _ => some ⟨m, [rowEntry sp priceRow]⟩
  | .reembed _ => none

/-- The row of the project. -/
def priceCollection (sp : Space) : CollectionRow := ⟨str "p", sp.model, some sp.dim⟩

theorem indexed_price (m : Option Model) (sp : Space) :
    Indexed priceChunks (priceClient m sp) [priceCollection sp] := by
  refine ⟨List.nodup_singleton _, ?_, ?_⟩
  · intro row _ c hc
    obtain rfl := Option.some.inj hc
    exact List.Perm.refl _
  · intro row hrow c hc e he
    obtain rfl := List.mem_singleton.mp hrow
    obtain rfl := Option.some.inj hc
    obtain rfl := List.mem_singleton.mp he
    exact ⟨rfl, rfl⟩

def allProjects : Args := ⟨[], false, false, 64⟩

def oldSpace : Space := ⟨str "old", 384⟩

def newSpace : Space := ⟨str "new", 768⟩

/-- A run that dies between the deletion and the renaming, and one that repairs it. -/
def crashAndRepair : List Act :=
  .start allProjects [priceCollection oldSpace] :: List.replicate 7 .call ++
    .crash false :: .start allProjects [priceCollection oldSpace] :: List.replicate 10 .call

/-- `runs_survive` after a crash that has left no live collection. -/
theorem runs_survive_crash : ∃ x,
    (runs priceChunks newSpace (priceClient (some oldSpace.model) oldSpace)
      [priceCollection oldSpace]).Reachable x ∧
      Migrated priceChunks newSpace (priceClient (some oldSpace.model) oldSpace) x.stores
        (priceCollection newSpace) := by
  obtain ⟨x, hx, hend⟩ := Lib.System.Reach.of_exec
    (S := runs priceChunks newSpace (priceClient (some oldSpace.model) oldSpace)
      [priceCollection oldSpace])
    (g := fun _ _ ↦ True) (l := crashAndRepair) (f := fun x ↦ (x.phase, x.stores.collections))
    (b := (.ended allProjects 0, [priceCollection newSpace])) (by decide)
  obtain ⟨hphase, hrows⟩ := Prod.mk.inj hend
  refine ⟨x, hx, (runs_survive (indexed_price _ _) hx).1 allProjects hphase rfl _ ?_ rfl⟩
  rw [hrows]
  exact List.mem_singleton_self _

/-- A collection from before `embedding_model` was kept in the metadata.  Its row names the
target and its vectors are all there, so a run has nothing to do and the metadata stay without a
model. -/
theorem legacy_metadata_unnamed : ¬ ∀ chunks target client collections,
    Indexed chunks client collections → ∀ x,
    (runs chunks target client collections).Reachable x → ∀ args, x.phase = .ended args 0 →
    args.dryRun = false → ∀ row ∈ x.stores.collections, args.selects row →
      row.Names target ∧ ∃ c, x.stores.client (.live row.projectId) = some c ∧
        (c.entries.map Entry.id).Perm ((chunks.rows row.projectId).map Row.id) ∧
        (∀ e ∈ c.entries, e.space = target) ∧ c.embeddingModel = some target.model := by
  intro hall
  obtain ⟨x, hx, hend⟩ := Lib.System.Reach.of_exec
    (S := runs priceChunks newSpace (priceClient none newSpace) [priceCollection newSpace])
    (g := fun _ _ ↦ True)
    (l := .start allProjects [priceCollection newSpace] :: List.replicate 3 .call)
    (f := fun x ↦ (x.phase, x.stores.collections, x.stores.client (.live (str "p"))))
    (b := (.ended allProjects 0, [priceCollection newSpace],
      some ⟨none, [rowEntry newSpace priceRow]⟩)) (by decide)
  obtain ⟨hphase, hrest⟩ := Prod.mk.inj hend
  obtain ⟨hrows, hlive⟩ := Prod.mk.inj hrest
  obtain ⟨-, c, hc, -, -, hmodel⟩ := hall priceChunks newSpace (priceClient none newSpace)
    [priceCollection newSpace] (indexed_price none newSpace) x hx allProjects hphase rfl
    (priceCollection newSpace) (hrows ▸ List.mem_singleton_self _) rfl
  obtain rfl := Option.some.inj (hlive.symm.trans hc)
  cases hmodel

end Runs

end Adapta.Reembed
