import Mathlib.Data.List.Dedup
import Mathlib.Data.List.Perm.Subperm
import Adapta.Lib.Fallible
import Adapta.Rag.Retrieve

/-!
# Retrieval respects its filters

Filters are enforced in three places: the `where` of the vector leg, the SQL conditions of the
full-text leg, and a second query over the vector candidates for what Chroma cannot express.
The full-text leg degrades to no hits when Postgres fails; the second query raises.  So a
candidate of either leg has passed every filter that is set (`Admitted`), and nothing after
the loop over the queries brings in another id.
-/

namespace Adapta.Rag

open Lib

variable {ε : Type} {S : Settings} {w : World ε} {p : ProjectId} {f : Option RetrievalFilters}
  {fileOf : ChunkId → FileId}

/-- Postgres and Chroma agree on each chunk's file. -/
structure Agrees (w : World ε) (fileOf : ChunkId → FileId) : Prop where
  chunks : ∀ r ∈ w.chunks, r.file = fileOf r.id
  vectors : ∀ p c, w.collection p = .ok c → ∀ v ∈ c.vectors, v.file = fileOf v.id

/-- The chunk is one of the project, and passes every filter that is set. -/
structure Admitted (w : World ε) (p : ProjectId) (f : Option RetrievalFilters)
    (fileOf : ChunkId → FileId) (id : ChunkId) : Prop where
  project : (∃ c, w.collection p = .ok c ∧ ∃ v ∈ c.vectors, v.id = id) ∨
    ∃ r ∈ w.chunks, r.id = id ∧ r.project = p
  files : ∀ f', f = some f' → f'.FileOk (fileOf id)
  row : ∀ f', f = some f' → f'.sqlOnly → ∃ r ∈ w.chunks, r.id = id ∧ f'.RowOk r

/-! ## The legs -/

theorem mem_filterVectorIds {ids keep : List ChunkId} {g : RetrievalFilters} {id : ChunkId}
    (h : filterVectorIds w ids g = .ok keep) (hid : id ∈ keep) :
    ∃ r ∈ w.chunks, r.id = id ∧ g.admits r := by
  rw [filterVectorIds] at h
  split at h
  · cases h
    cases hid
  · split at h
    · cases h
    · cases h
      obtain ⟨r, hr, rfl⟩ := List.mem_map.mp hid
      rw [List.mem_filter, decide_eq_true_eq] at hr
      exact ⟨r, hr.1, rfl, hr.2.2⟩

theorem mem_chromaQuery {c : Collection} {e : ε} {n : Nat} {within : Option (List FileId)}
    {l : List (VectorRow × Rat)} {x : VectorRow × Rat} (h : chromaQuery w c e n within = .ok l)
    (hx : x ∈ l) : x.1 ∈ c.vectors ∧ ∀ ids, within = some ids → x.1.file ∈ ids := by
  obtain ⟨hits, hn, rfl⟩ := map_eq_ok.mp h
  have hx := List.mem_filter.mp (List.mem_of_mem_take hx)
  refine ⟨w.nearest_mem c e hits hn x hx.1, ?_⟩
  intro ids hids
  simpa [hids] using hx.2

/-- The restriction of the query is the filter on files. -/
theorem fileOk_of_whereOf {g : RetrievalFilters} {file : FileId}
    (h : ∀ ids, whereOf (some g) = some ids → file ∈ ids) : g.FileOk file := by
  intro ids hids hne
  exact h ids (by simp [whereOf, hids, hne])

/-- A hit of the restricted vector query that also passes the second query, if there is one. -/
theorem admitted_of_vector (ha : Agrees w fileOf) {c : Collection} {v : VectorRow}
    (hc : w.collection p = .ok c) (hv : v ∈ c.vectors)
    (hfile : ∀ ids, whereOf f = some ids → v.file ∈ ids)
    (hrow : ∀ g, f = some g → g.sqlOnly → ∃ r ∈ w.chunks, r.id = v.id ∧ g.RowOk r) :
    Admitted w p f fileOf v.id where
  project := .inl ⟨c, hc, v, hv, rfl⟩
  files g hg := by
    subst hg
    rw [← ha.vectors p c hc v hv]
    exact fileOk_of_whereOf hfile
  row := hrow

/-- What the vector leg of a query returns is admitted. -/
theorem admitted_of_vectorLeg (ha : Agrees w fileOf) {c : Collection} {n : Nat} {q : String}
    {l : List (VectorRow × Rat)} (hc : w.collection p = .ok c) (h : vectorLeg w c n f q = .ok l)
    {x : VectorRow × Rat} (hx : x ∈ l) : Admitted w p f fileOf x.1.id := by
  obtain ⟨e, -, h⟩ := bind_eq_ok.mp h
  obtain ⟨hits, hq, h⟩ := bind_eq_ok.mp h
  have hmem := fun (hx : x ∈ hits.insertionSort fun x y ↦ vectorKey x ≤ vectorKey y) ↦
    mem_chromaQuery hq ((List.mem_insertionSort _).mp hx)
  cases f with
  | none =>
      cases h
      exact admitted_of_vector ha hc (hmem hx).1 (hmem hx).2 nofun
  | some g =>
      simp only at h
      split at h
      · obtain ⟨keep, hk, h⟩ := bind_eq_ok.mp h
        cases h
        rw [List.mem_filter, decide_eq_true_eq] at hx
        obtain ⟨r, hr, hid, hadm⟩ := mem_filterVectorIds hk hx.2
        apply admitted_of_vector ha hc (hmem hx.1).1 (hmem hx.1).2
        rintro _ ⟨⟩ -
        exact ⟨r, hr, hid, RetrievalFilters.rowOk_of_admits hadm⟩
      · next hsql =>
        cases h
        apply admitted_of_vector ha hc (hmem hx).1 (hmem hx).2
        rintro _ ⟨⟩ hsql'
        exact absurd hsql' hsql

/-- What the full-text leg of a query returns is admitted. -/
theorem admitted_of_ftsSearch (ha : Agrees w fileOf) {q : String} {n : Nat}
    {l : List (ChunkRow × String)} (h : ftsSearch w p q n f = .ok l) {x : ChunkRow × String}
    (hx : x ∈ l) : Admitted w p f fileOf x.1.id := by
  obtain ⟨rows, hm, rfl⟩ := map_eq_ok.mp h
  obtain ⟨r, hr, hname⟩ := List.mem_filterMap.mp (List.mem_of_mem_take hx)
  obtain ⟨name, -, rfl⟩ := Option.map_eq_some_iff.mp hname
  rw [List.mem_filter, decide_eq_true_eq] at hr
  obtain ⟨hr, hproj, hadm⟩ := hr
  have hrow := w.matching_mem p q rows hm r hr
  refine ⟨.inr ⟨r, hrow, rfl, hproj⟩, ?_, ?_⟩
  · intro g hg
    subst hg
    rw [← ha.chunks r hrow]
    exact RetrievalFilters.fileOk_of_admits hadm
  · intro g hg _
    subst hg
    exact ⟨r, hrow, rfl, RetrievalFilters.rowOk_of_admits hadm⟩

theorem admitted_of_ftsLeg (ha : Agrees w fileOf) {q : String} {k : Nat}
    {l : List (ChunkRow × String)} (h : ftsLeg S w p k f q = .ok l) {x : ChunkRow × String}
    (hx : x ∈ l) : Admitted w p f fileOf x.1.id := by
  rw [ftsLeg] at h
  split at h
  · rename_i hits hs
    cases h
    exact admitted_of_ftsSearch ha hs hx
  · split at h
    · cases h
      cases hx
    · cases h

/-! ## The candidates -/

/-- Each candidate is filed under its own id, which is admitted. -/
def Sound (w : World ε) (p : ProjectId) (f : Option RetrievalFilters) (fileOf : ChunkId → FileId)
    (byId : AList fun _ : ChunkId ↦ RetrievedChunk) : Prop :=
  ∀ id c, byId.lookup id = some c → c.chunkId = id ∧ Admitted w p f fileOf id

theorem Sound.insert {byId : AList fun _ : ChunkId ↦ RetrievedChunk} {id : ChunkId}
    {c : RetrievedChunk} (h : Sound w p f fileOf byId) (hid : c.chunkId = id)
    (hadm : Admitted w p f fileOf id) : Sound w p f fileOf (byId.insert id c) := by
  intro id' c' hc'
  by_cases he : id' = id
  · subst he
    rw [AList.lookup_insert, Option.some.injEq] at hc'
    subst hc'
    exact ⟨hid, hadm⟩
  · rw [AList.lookup_insert_ne he] at hc'
    exact h id' c' hc'

theorem Sound.addVector {byId : AList fun _ : ChunkId ↦ RetrievedChunk} {x : VectorRow × Rat}
    (h : Sound w p f fileOf byId) (hadm : Admitted w p f fileOf x.1.id) :
    Sound w p f fileOf (addVector byId x) := by
  rw [Rag.addVector]
  split
  · exact h.insert rfl hadm
  · split
    · exact h.insert rfl hadm
    · exact h

theorem Sound.addFts {byId : AList fun _ : ChunkId ↦ RetrievedChunk} {x : ChunkRow × String}
    (h : Sound w p f fileOf byId) (hadm : Admitted w p f fileOf x.1.id) :
    Sound w p f fileOf (addFts byId x) := by
  rw [Rag.addFts]
  split
  · exact h.insert rfl hadm
  · exact h

/-- One query keeps the candidates sound. -/
theorem sound_of_addQuery (ha : Agrees w fileOf) {c : Collection} {k n : Nat} {acc acc' : Acc}
    {q : String} (hc : w.collection p = .ok c) (h : addQuery S w p c k n f acc q = .ok acc')
    (hs : Sound w p f fileOf acc.byId) : Sound w p f fileOf acc'.byId := by
  obtain ⟨vec, hv, h⟩ := bind_eq_ok.mp h
  obtain ⟨fts, hf, h⟩ := bind_eq_ok.mp h
  cases h
  have hvec : Sound w p f fileOf (vec.foldl addVector acc.byId) :=
    List.foldlRecOn vec _ hs fun b hb x hx ↦ hb.addVector (admitted_of_vectorLeg ha hc hv hx)
  exact List.foldlRecOn fts _ hvec fun b hb x hx ↦ hb.addFts (admitted_of_ftsLeg ha hf hx)

theorem sound_empty : Sound w p f fileOf Acc.empty.byId := by
  intro id c h
  simp [Acc.empty] at h

/-- So does the loop over the queries. -/
theorem sound_of_queries (ha : Agrees w fileOf) {c : Collection} {k n : Nat}
    (hc : w.collection p = .ok c) {queries : List String} {acc : Acc}
    (h : queries.foldlM (addQuery S w p c k n f) .empty = .ok acc) :
    Sound w p f fileOf acc.byId :=
  foldlM_keeps (P := fun acc ↦ Sound w p f fileOf acc.byId)
    (fun _ _ _ hq hs ↦ sound_of_addQuery ha hc hq hs) h sound_empty

/-! ## The answer -/

theorem nodup_rrfFuse {ι κ : Type*} [LinearOrder ι] [LinearOrder κ] (k : Nat)
    (tieKey : ι → WithBot κ) (lists : List (List ι)) : (rrfFuse k tieKey lists).Nodup :=
  (List.perm_insertionSort _ _).nodup_iff.mpr (List.nodup_dedup _)

/-- The ids of the candidates are among the fused ids, in their order. -/
theorem candidates_sublist {acc : Acc} (hs : Sound w p f fileOf acc.byId) :
    (acc.candidates.map RetrievedChunk.chunkId).Sublist acc.fusedIds := by
  rw [Acc.candidates]
  generalize acc.fusedIds = ids
  induction ids with
  | nil => simp
  | cons id ids ih =>
      rw [List.filterMap_cons]
      split
      · exact ih.cons id
      · rename_i c hc
        rw [List.map_cons, (hs id c hc).1]
        exact ih.cons_cons id

/-- The ids of a list of chunks are distinct, and admitted. -/
structure Answer (w : World ε) (p : ProjectId) (f : Option RetrievalFilters)
    (fileOf : ChunkId → FileId) (ids : List ChunkId) : Prop where
  nodup : ids.Nodup
  admitted : ∀ id ∈ ids, Admitted w p f fileOf id

theorem Answer.subperm {ids ids' : List ChunkId} (h : Answer w p f fileOf ids)
    (hsub : ids'.Subperm ids) : Answer w p f fileOf ids' := by
  refine ⟨?_, fun id hid ↦ h.admitted id (hsub.subset hid)⟩
  obtain ⟨l, hperm, hl⟩ := hsub
  exact hperm.nodup_iff.mp (hl.nodup h.nodup)

theorem Answer.candidates {acc : Acc} (hs : Sound w p f fileOf acc.byId) :
    Answer w p f fileOf (acc.candidates.map RetrievedChunk.chunkId) where
  nodup := (candidates_sublist hs).nodup (nodup_rrfFuse _ _ _)
  admitted id hid := by
    obtain ⟨c, hc, rfl⟩ := List.mem_map.mp hid
    obtain ⟨i, -, hi⟩ := List.mem_filterMap.mp hc
    obtain ⟨rfl, hadm⟩ := hs i c hi
    exact hadm

/-- The reranker permutes the best candidates, and may only drop some of them. -/
theorem rerankStage_subperm {k : Nat} {q : String} {cs cs' : List RetrievedChunk}
    (h : rerankStage w k q cs = .ok cs') :
    (cs'.map RetrievedChunk.chunkId).Subperm (cs.map RetrievedChunk.chunkId) := by
  rw [rerankStage] at h
  split at h
  · cases h
    exact List.Subperm.refl _
  · rename_i rerank _
    split at h
    · cases h
      exact List.Subperm.refl _
    · obtain ⟨scores, -, h⟩ := bind_eq_ok.mp h
      cases h
      set n := min (k * 2) cs.length
      have hids : ∀ l : List (Rat × RetrievedChunk),
          (l.map (reranked w)).map RetrievedChunk.chunkId =
            (l.map Prod.snd).map RetrievedChunk.chunkId := by
        intro l
        simp [reranked, Function.comp_def]
      have hzip : (((scores.zip (cs.take n)).insertionSort fun x y ↦ y.1 ≤ x.1).map
          Prod.snd).Subperm (cs.take n) := by
        apply ((List.perm_insertionSort _ _).map Prod.snd).subperm.trans
        rw [List.zip_eq_zip_take_min, List.map_snd_zip (by simp)]
        exact (List.take_sublist _ _).subperm
      have hall := hzip.append (List.Subperm.refl (cs.drop n))
      rw [List.take_append_drop] at hall
      obtain ⟨l, hperm, hl⟩ := hall
      rw [List.map_append, hids, ← List.map_append]
      exact ⟨l.map _, hperm.map _, hl.map _⟩

/-- The provenance changes no id. -/
theorem hydrateProvenance_ids {cs cs' : List RetrievedChunk}
    (h : hydrateProvenance w cs = .ok cs') :
    cs'.map RetrievedChunk.chunkId = cs.map RetrievedChunk.chunkId := by
  rw [hydrateProvenance] at h
  split at h
  · cases h
    rfl
  · split at h
    · split at h
      · cases h
        rfl
      · cases h
    · cases h
      rw [List.map_map]
      apply List.map_congr_left
      intro c _
      simp only [Function.comp_apply]
      split <;> rfl

/-- Whatever the stores hold and whichever calls raise, an answer is at most as long as asked,
names no chunk twice, and has only chunks of the project that pass every filter that is set. -/
theorem retrieve_admitted (S : Settings) (w : World ε) (fileOf : ChunkId → FileId)
    (ha : Agrees w fileOf) (p : ProjectId) (queries : List String) (k : Nat) (hk : 1 ≤ k)
    (f : Option RetrievalFilters) (cs : List RetrievedChunk)
    (h : retrieve S w p queries (some k) f = .ok cs) :
    cs.length ≤ k ∧ (cs.map RetrievedChunk.chunkId).Nodup ∧
      ∀ c ∈ cs, Admitted w p f fileOf c.chunkId := by
  have htop : ((some k).filter (· ≠ 0)).getD S.ragTopK = k := by
    have : k ≠ 0 := Nat.one_le_iff_ne_zero.mp hk
    simp [Option.filter, this]
  simp only [retrieve, htop] at h
  split at h
  · cases h
  · cases h
    simp
  · next c _ hc =>
    split at h
    · cases h
    · obtain ⟨acc, hacc, h⟩ := bind_eq_ok.mp h
      split at h
      · cases h
        simp
      · obtain ⟨best, hbest, h⟩ := bind_eq_ok.mp h
        have hids := hydrateProvenance_ids h
        have hans : Answer w p f fileOf (cs.map RetrievedChunk.chunkId) := by
          rw [hids]
          refine ((Answer.candidates (sound_of_queries ha hc hacc)).subperm
            (rerankStage_subperm hbest)).subperm ?_
          exact ((List.take_sublist k best).map _).subperm
        refine ⟨?_, hans.nodup, fun c hc ↦ hans.admitted _ (List.mem_map_of_mem hc)⟩
        calc cs.length = (best.take k).length := by simpa using congrArg List.length hids
          _ ≤ k := List.length_take_le k best

/-! ## A run -/

/-- Two files; the second has a page without a vector, and its text matches every query. -/
def twoFiles : World Unit where
  chunks :=
    [⟨"a_0", "p", "a", 0, "alpha", some 1, false, none, false, []⟩,
      ⟨"b_0", "p", "b", 0, "beta", some 3, true, some (1 / 2), true, [("kind", "bill")]⟩,
      ⟨"b_1", "p", "b", 1, "gamma", some 5, false, none, false, []⟩]
  filename file := some (file ++ ".pdf")
  clientError := none
  collection _ := .ok ⟨some "mini", [⟨"a_0", "a", some "a.pdf", some 0, "alpha"⟩,
    ⟨"b_0", "b", some "b.pdf", some 0, "beta"⟩]⟩
  embedOne _ := .ok ()
  nearest c _ := .ok (c.vectors.map fun v ↦ (v, 1 / 4))
  matching _ _ := .ok
    [⟨"b_1", "p", "b", 1, "gamma", some 5, false, none, false, []⟩,
      ⟨"b_0", "p", "b", 0, "beta", some 3, true, some (1 / 2), true, [("kind", "bill")]⟩]
  filterError _ := none
  provenanceError _ := some .timeout
  rerank := some fun _ texts ↦ .ok (texts.map fun t ↦ if t = "gamma" then 1 else 0)
  sigmoid x := x
  header _ := ""
  nearest_mem c e l h x hx := by
    cases h
    obtain ⟨v, hv, rfl⟩ := List.mem_map.mp hx
    exact hv
  matching_mem p q l h r hr := by
    cases h
    rcases List.mem_cons.mp hr with rfl | hr
    · simp
    · rcases List.mem_cons.mp hr with rfl | hr
      · simp
      · cases hr

def twoSettings : Settings := ⟨5, 3, 4, "mini"⟩

def fromPageTwo : RetrievalFilters := ⟨none, some 2, none, none, none⟩

/-- The file an id of `twoFiles` is of. -/
def fileOfTwo (id : ChunkId) : FileId := if id = "a_0" then "a" else "b"

theorem agrees_twoFiles : Agrees twoFiles fileOfTwo where
  chunks := by decide
  vectors p c h v hv := by
    cases h
    revert v
    decide

/-- Two queries, a filter on pages and the reranker: the chunk of page one is not returned. -/
theorem retrieve_admitted_twoFiles :
    ∃ cs, retrieve twoSettings twoFiles "p" ["one", "two"] (some 2) (some fromPageTwo) = .ok cs ∧
      cs.map RetrievedChunk.chunkId = ["b_1", "b_0"] ∧
      cs.length ≤ 2 ∧ (cs.map RetrievedChunk.chunkId).Nodup ∧
      ∀ c ∈ cs, Admitted twoFiles "p" (some fromPageTwo) fileOfTwo c.chunkId := by
  have hrun : (retrieve twoSettings twoFiles "p" ["one", "two"] (some 2) (some fromPageTwo)).map
      (List.map RetrievedChunk.chunkId) = .ok ["b_1", "b_0"] := by with_unfolding_all decide
  obtain ⟨cs, hcs, hids⟩ := map_eq_ok.mp hrun
  exact ⟨cs, hcs, hids, retrieve_admitted twoSettings twoFiles fileOfTwo agrees_twoFiles "p" _ 2
    (by decide) _ cs hcs⟩

end Adapta.Rag
