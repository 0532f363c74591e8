import Adapta.Rag.Leading

/-!
# Chunks with one name and one index

Two files of a project may have the same name, and their chunks then the same tie keys.  Such
twins come in the order in which Chroma returns them, and this shows in what `retrieve` returns:
by their texts, or by their scores, since one of them may have been a hit of a query of which
the other was not.  Only if the project has no other chunk than two twins of one text and one
embedding is there nothing to tell apart.

Chroma also decides which chunks are hits at all, where several are at the distance at which it
cuts its answer off.  No tie key helps then, so that three chunks are enough for the order to
show.
-/

namespace Adapta.Rag

open Lib

variable {φ ε : Type}

/-- Whatever ids the files are given, in whatever order Chroma returns equal distances, and for
every query list and `top_k`, projects with these files answer alike. -/
def Corpus.Stable (C : Corpus FileId ε) : Prop :=
  ∀ (G : Engine ε) (P P' : Project C G) (S : Settings) (queries : List String)
    (topK : Option Nat), P.answer S queries topK = P'.answer S queries topK

/-- There are two chunks, and they are alike in all but the file. -/
structure Corpus.Alike (C : Corpus φ ε) : Prop where
  length_eq : C.chunks.length = 2
  filename_eq : ∀ x ∈ C.chunks, ∀ y ∈ C.chunks, C.filename x.1 = C.filename y.1
  index_eq : ∀ x ∈ C.chunks, ∀ y ∈ C.chunks, x.2 = y.2
  text_eq : ∀ x ∈ C.chunks, ∀ y ∈ C.chunks, C.text x = C.text y
  embedding_eq : ∀ x ∈ C.chunks, ∀ y ∈ C.chunks, C.embedding x = C.embedding y

/-! ## Twins -/

section

variable {ι : Type*} [LinearOrder ι]

/-- What comes first in sixty-three lists comes first, if there is one other list. -/
theorem rrfScore_lt_of_first {ranks : List ι} {i j m : ι} (hranks : ranks.Nodup) (hij : i ≠ j)
    (hm : m ≠ i) :
    rrfScore rrfK (ranks :: List.replicate 63 [i, j] ++ List.replicate 64 []) m + 1 / 10 ^ 12 <
      rrfScore rrfK (ranks :: List.replicate 63 [i, j] ++ List.replicate 64 []) i := by
  have hnodup : ∀ l ∈ ranks :: List.replicate 63 [i, j] ++ List.replicate 64 [], l.Nodup := by
    intro l hl
    rw [List.cons_append, List.mem_cons, List.mem_append, List.mem_replicate,
      List.mem_replicate] at hl
    rcases hl with rfl | ⟨-, rfl⟩ | ⟨-, rfl⟩
    · exact hranks
    · simpa using hij
    · exact List.nodup_nil
  have hsum : ∀ n, rrfScore rrfK (ranks :: List.replicate 63 [i, j] ++ List.replicate 64 []) n =
      share rrfK ranks n + 63 * share rrfK [i, j] n := by
    intro n
    have hnil : share rrfK ([] : List ι) n = 0 := if_neg List.not_mem_nil
    rw [rrfScore_eq hnodup, List.cons_append, List.map_cons, List.map_append, List.map_replicate,
      List.map_replicate, hnil, List.sum_cons, List.sum_append, List.sum_replicate,
      List.sum_replicate, nsmul_zero, add_zero, nsmul_eq_mul]
    norm_num
  have hfirst : share rrfK [i, j] i = 1 / 61 := by
    rw [share, if_pos List.mem_cons_self, List.idxOf_cons_self]
    norm_num [rrfK]
  have hsecond : share rrfK [i, j] m ≤ 1 / 62 := by
    have hidx : 1 ≤ [i, j].idxOf m := by
      rw [List.idxOf_cons_ne _ (Ne.symm hm)]
      exact Nat.succ_pos _
    apply (share_le_of_le_idxOf hidx).trans
    norm_num [rrfK]
  have hone : share rrfK ranks m ≤ 1 / 61 := by
    apply (share_le_of_le_idxOf (Nat.zero_le _)).trans
    norm_num [rrfK]
  have hnonneg := share_nonneg rrfK ranks i
  rw [hsum, hsum, hfirst]
  linarith

end

section

variable [DecidableEq ε]

/-- The empty query is near to some embeddings; all other distances are one. -/
def twinEngine (e₁ e₂ : ε) (near : ε → Bool) : Engine ε where
  embedOne q := .ok (if q = "" then e₁ else e₂)
  distance e v := if e = e₁ ∧ near v then 0 else 1
  lexemes _ := []
  ln _ := 1
  sparseMaxDf := 1
  contentHash := id
  collation := id
  collation_inj := Function.injective_id

/-- One chunk is returned, of two that are fetched. -/
def twinSettings : Settings := ⟨1, 1, 1, ""⟩

/-- The empty query and then others. -/
def twinQueries : List String := "" :: List.replicate 63 "q"

variable {C : Corpus FileId ε} {e₁ e₂ : ε} {near : ε → Bool}

/-- The files are their ids, and Chroma returns the hits of the empty query and of the others
in these orders. -/
def twinProject (e₁ e₂ : ε) {r₁ r₂ : List (FileId × Nat)} (h₁ : r₁.Perm C.chunks)
    (h₂ : r₂.Perm C.chunks)
    (hnear : r₁.Pairwise fun x y ↦ near (C.embedding y) → near (C.embedding x)) :
    Project C (twinEngine e₁ e₂ near) where
  fileId := id
  fileId_inj := Function.injective_id
  ranking e := if e = e₁ then r₁ else r₂
  perm e := by
    split
    · exact h₁
    · exact h₂
  sorted e := by
    by_cases he : e = e₁
    · rw [if_pos he]
      apply hnear.imp
      intro x y hxy
      show (if e = e₁ ∧ _ then _ else _ : Rat) ≤ if e = e₁ ∧ _ then _ else _
      simp only [he, true_and]
      by_cases hy : near (C.embedding y)
      · rw [if_pos hy, if_pos (hxy hy)]
      · rw [if_neg hy]
        split <;> norm_num
    · rw [if_neg he]
      apply List.pairwise_of_forall
      intro x y
      show (if e = e₁ ∧ _ then _ else _ : Rat) ≤ if e = e₁ ∧ _ then _ else _
      rw [if_neg fun h ↦ he h.1, if_neg fun h ↦ he h.1]

section

variable {P : Project C (twinEngine e₁ e₂ near)} {x y : FileId × Nat}
  {rest : List (FileId × Nat)}

/-- The twins tie for all queries but the first. -/
theorem twin_hits (hne : e₁ ≠ e₂) (hname : C.filename x.1 = C.filename y.1) (hindex : x.2 = y.2)
    (hrank : P.ranking e₂ = x :: y :: rest) : P.hits 2 e₂ = [x, y] := by
  have hdist : ∀ z, (twinEngine e₁ e₂ near).distance e₂ (C.embedding z) = 1 :=
    fun z ↦ if_neg fun h ↦ hne h.1.symm
  have hkey : hitKey C (twinEngine e₁ e₂ near) e₂ x = hitKey C (twinEngine e₁ e₂ near) e₂ y := by
    rw [hitKey, hitKey, hdist, hdist, hname, hindex]
  rw [Project.hits, hrank]
  apply List.Pairwise.insertionSort_eq
  simp [hkey]

theorem twin_ftsHits (q : String) : P.ftsHits twinSettings 1 q = [] := by
  have hmatches : ftsMatches C (twinEngine e₁ e₂ near) q = [] := by
    rw [ftsMatches, List.filter_eq_nil_iff]
    intro z _
    simp [sharedLexemes, queryLexemes, twinEngine]
  rw [Project.ftsHits, Project.ftsOrder, hmatches]
  rfl

/-- The lists that are fused. -/
theorem twin_lists (hhits : P.hits 2 e₂ = [x, y]) :
    ∃ s, seenRun C (twinEngine e₁ e₂ near) (P.hits 2) (P.ftsHits twinSettings 1) twinQueries =
        .ok s ∧
      s.vecLists ++ s.ftsLists =
        P.hits 2 e₁ :: List.replicate 63 [x, y] ++ List.replicate 64 [] := by
  have hembed : ∀ q, (twinEngine e₁ e₂ near).embedOne q = .ok (if q = "" then e₁ else e₂) :=
    fun _ ↦ rfl
  obtain ⟨s, hseen, hvec, hfts⟩ := seenRun_eq_ok (C := C) hembed (P.hits 2)
    (P.ftsHits twinSettings 1) twinQueries
  have hq : (if "q" = "" then e₁ else e₂) = e₂ := if_neg (by decide)
  refine ⟨s, hseen, ?_⟩
  rw [hvec, hfts, twinQueries, List.map_cons, List.map_replicate, hq, hhits, if_pos rfl,
    List.map_cons, List.map_replicate, twin_ftsHits, twin_ftsHits, ← List.replicate_succ]

/-- The first of the two hits is returned. -/
theorem twin_answer (hhits : P.hits 2 e₂ = [x, y]) :
    ∃ score, P.answer twinSettings twinQueries none = .ok [C.entry x score] ∧
      (x ∈ (P.ranking e₁).take 2 → near (C.embedding x) → 1 ≤ score) ∧
      ((x ∈ (P.ranking e₁).take 2 → ¬near (C.embedding x)) → score ≤ 0) := by
  have hcount : fetchCount twinSettings 1 none = 2 := rfl
  obtain ⟨s, hseen, hlists⟩ := twin_lists hhits
  have hxy : x ≠ y := by
    have hnodup := P.nodup_hits 2 e₂
    rw [hhits] at hnodup
    simpa using hnodup
  have hx : x ∈ (s.vecLists ++ s.ftsLists).flatten := by
    rw [hlists]
    simp
  obtain ⟨score, hscore, hanswer⟩ : ∃ score, s.known x = some (C.entry x score) ∧
      P.answer twinSettings twinQueries none = .ok [C.entry x score] := by
    apply answer_eq_singleton rfl (hcount.symm ▸ hseen) hx
    intro i hi
    rw [hlists, List.map_append, List.map_cons, List.map_replicate, List.map_replicate]
    apply rrfScore_lt_of_first
    · exact (P.nodup_hits 2 e₁).map P.chunkId_injective
    · exact fun h ↦ hxy (P.chunkId_injective h)
    · exact hi
  refine ⟨score, hanswer, ?_, ?_⟩
  · intro hhit hnear
    have hdist : (twinEngine e₁ e₂ near).distance e₁ (C.embedding x) = 0 := if_pos ⟨rfl, hnear⟩
    obtain ⟨v, hv, hle⟩ := seenRun_scoreAtLeast (e := e₁) rfl (P.mem_hits.mpr hhit) hseen
    cases hscore.symm.trans hv
    rwa [hitScore, hdist, sub_zero] at hle
  · intro hfar
    have hmost : ScoreAtMost s.known x 0 := by
      apply seenRun_scoreAtMost le_rfl _ hseen
      intro e hhit
      have hdist : (twinEngine e₁ e₂ near).distance e (C.embedding x) = 1 := by
        apply if_neg
        rintro ⟨rfl, hnear⟩
        exact hfar (P.mem_hits.mp hhit) hnear
      rw [hitScore, hdist, sub_self]
    exact hmost _ hscore

/-- One of the two chunks that Chroma ranks first is returned. -/
theorem exists_answer (hlen : 2 ≤ C.chunks.length) : ∃ x ∈ (P.ranking e₂).take 2, ∃ score,
    P.answer twinSettings twinQueries none = .ok [C.entry x score] := by
  have hhits : (P.hits 2 e₂).length = 2 := by
    rw [Project.hits, List.length_insertionSort, List.length_take, (P.perm e₂).length_eq]
    omega
  obtain ⟨x, y, hxy⟩ := List.length_eq_two.mp hhits
  obtain ⟨score, hanswer, -⟩ := twin_answer hxy
  exact ⟨x, P.mem_hits.mp (hxy ▸ List.mem_cons_self), score, hanswer⟩

end

variable (near) in
/-- Twins that differ in their texts, or of which one is a hit of the first query and near to
it, show. -/
theorem not_stable_of_twins {r₁ rest : List (FileId × Nat)} {a b : FileId × Nat} (hne : e₁ ≠ e₂)
    (hname : C.filename a.1 = C.filename b.1) (hindex : a.2 = b.2)
    (h₁ : r₁.Perm C.chunks) (h₂ : (a :: b :: rest).Perm C.chunks)
    (hnear : r₁.Pairwise fun x y ↦ near (C.embedding y) → near (C.embedding x))
    (hshows : C.text a ≠ C.text b ∨ (a ∈ r₁.take 2 ∧ near (C.embedding a)) ∧
      (b ∈ r₁.take 2 → ¬near (C.embedding b))) : ¬C.Stable := by
  intro hstable
  have h₂' : (b :: a :: rest).Perm C.chunks := (List.Perm.swap a b rest).trans h₂
  obtain ⟨score, hanswer, hleast, -⟩ := twin_answer
    (P := twinProject e₁ e₂ h₁ h₂ hnear) (twin_hits hne hname hindex (if_neg hne.symm))
  obtain ⟨score', hanswer', -, hmost⟩ := twin_answer
    (P := twinProject e₁ e₂ h₁ h₂' hnear)
    (twin_hits hne hname.symm hindex.symm (if_neg hne.symm))
  have hrank : ∀ (r₂ : List (FileId × Nat)) (h₂ : r₂.Perm C.chunks),
      (twinProject e₁ e₂ h₁ h₂ hnear).ranking e₁ = r₁ := fun _ _ ↦ if_pos rfl
  rw [hrank] at hleast hmost
  have heq := hstable _ (twinProject e₁ e₂ h₁ h₂ hnear) (twinProject e₁ e₂ h₁ h₂' hnear)
    twinSettings twinQueries none
  rw [hanswer, hanswer'] at heq
  have hentry : C.entry a score = C.entry b score' := List.singleton_inj.mp (Except.ok.inj heq)
  rcases hshows with htext | ⟨⟨hmem, hclose⟩, hfar⟩
  · exact htext (congrArg Shown.text hentry)
  · have hscore : score = score' := congrArg Shown.score hentry
    have := hleast hmem hclose
    have := hmost hfar
    linarith

/-- All distances are one, and Chroma returns the chunks in this order. -/
def tieProject (e₁ e₂ : ε) {r : List (FileId × Nat)} (h : r.Perm C.chunks) :
    Project C (twinEngine e₁ e₂ fun _ ↦ false) :=
  twinProject e₁ e₂ h h (List.pairwise_of_forall fun _ _ h ↦ h)

theorem tieProject_ranking (e₁ e₂ e : ε) {r : List (FileId × Nat)} (h : r.Perm C.chunks) :
    (tieProject e₁ e₂ h).ranking e = r := ite_self r

/-- The chunk that is returned may as well be the one that is cut off. -/
theorem not_stable_of_three (e₁ e₂ : ε) (h : C.Distinct) (hlen : 3 ≤ C.chunks.length) :
    ¬C.Stable := by
  intro hstable
  obtain ⟨x, hx, score, hanswer⟩ := exists_answer
    (P := tieProject e₁ e₂ (.refl C.chunks)) (by omega)
  rw [tieProject_ranking] at hx
  have hxc := List.mem_of_mem_take hx
  -- in the other project, `x` comes last
  have hlast : (C.chunks.erase x ++ [x]).Perm C.chunks :=
    (List.perm_append_singleton x _).trans (List.perm_cons_erase hxc).symm
  obtain ⟨y, hy, score', hanswer'⟩ := exists_answer (P := tieProject e₁ e₂ hlast) (by omega)
  have hfront : 2 ≤ (C.chunks.erase x).length := by
    rw [List.length_erase_of_mem hxc]
    omega
  rw [tieProject_ranking, List.take_append_of_le_length hfront] at hy
  have hye := List.mem_of_mem_take hy
  have heq := hstable _ (tieProject e₁ e₂ (.refl C.chunks)) (tieProject e₁ e₂ hlast)
    twinSettings twinQueries none
  rw [hanswer, hanswer'] at heq
  have hentry : C.entry x score = C.entry y score' := List.singleton_inj.mp (Except.ok.inj heq)
  have hxy : x = y := h x hxc y (List.mem_of_mem_erase hye) (congrArg Shown.source hentry)
    (congrArg Shown.chunkIndex hentry)
  exact C.nodup.not_mem_erase (hxy ▸ hye)

end

section

variable {C : Corpus φ ε} {a b : φ × Nat}

/-- Two chunks in front of the others. -/
theorem perm_cons_cons [DecidableEq φ] (ha : a ∈ C.chunks) (hb : b ∈ C.chunks) (hab : a ≠ b) :
    (a :: b :: (C.chunks.erase a).erase b).Perm C.chunks := by
  have hb' : b ∈ C.chunks.erase a := (List.mem_erase_of_ne hab.symm).mpr hb
  exact ((List.perm_cons_erase hb').symm.cons a).trans (List.perm_cons_erase ha).symm

/-- There are no others, if all are one of the two. -/
theorem eq_nil_of_pair {rest : List (φ × Nat)} (h : (a :: b :: rest).Perm C.chunks)
    (hpair : ∀ x ∈ C.chunks, x = a ∨ x = b) : rest = [] := by
  rw [List.eq_nil_iff_forall_not_mem]
  intro x hx
  have hnodup := h.nodup_iff.mpr C.nodup
  rw [List.nodup_cons, List.nodup_cons] at hnodup
  rcases hpair x (h.subset (List.mem_cons_of_mem _ (List.mem_cons_of_mem _ hx))) with rfl | rfl
  · exact hnodup.1 (List.mem_cons_of_mem _ hx)
  · exact hnodup.2.1 hx

/-- Two chunks with nothing to tell apart. -/
theorem alike_of_pair (h : [a, b].Perm C.chunks) (hname : C.filename a.1 = C.filename b.1)
    (hindex : a.2 = b.2) (htext : C.text a = C.text b)
    (hembedding : C.embedding a = C.embedding b) : C.Alike := by
  have hlike : ∀ {α : Type} (f : φ × Nat → α), f a = f b →
      ∀ x ∈ C.chunks, ∀ y ∈ C.chunks, f x = f y := by
    intro α f hf
    have hall : ∀ x ∈ C.chunks, f x = f a := by
      intro x hx
      rcases List.mem_pair.mp (h.mem_iff.mpr hx) with rfl | rfl
      · rfl
      · exact hf.symm
    intro x hx y hy
    rw [hall x hx, hall y hy]
  constructor
  · exact h.length_eq.symm
  · exact hlike (fun x ↦ C.filename x.1) hname
  · exact hlike Prod.snd hindex
  · exact hlike C.text htext
  · exact hlike C.embedding hembedding

end

/-- A project with twins shows the order in which they come, unless there is nothing to tell
apart. -/
theorem not_stable [Nontrivial ε] {C : Corpus FileId ε} (hdistinct : ¬C.Distinct)
    (halike : ¬C.Alike) : ¬C.Stable := by
  classical
  obtain ⟨e₁, e₂, hne⟩ := exists_pair_ne ε
  rw [Corpus.Distinct] at hdistinct
  push Not at hdistinct
  obtain ⟨a, ha, b, hb, hname, hindex, hab⟩ := hdistinct
  have h₂ := perm_cons_cons ha hb hab
  by_cases htext : C.text a = C.text b
  · by_cases hthird : ∃ z ∈ C.chunks, z ≠ a ∧ z ≠ b
    · -- the first query has `a` and a third chunk as hits, but not `b`
      obtain ⟨z, hz, hza, hzb⟩ := hthird
      apply not_stable_of_twins (fun _ ↦ true) hne hname hindex
        (perm_cons_cons ha hz hza.symm) h₂
      · exact List.pairwise_of_forall fun _ _ _ ↦ rfl
      · refine .inr ⟨⟨List.mem_cons_self, rfl⟩, fun hmem ↦ ?_⟩
        simp [hab.symm, hzb.symm] at hmem
    · -- there is no third chunk, so it is the embedding that differs
      have hrest : (C.chunks.erase a).erase b = [] := by
        apply eq_nil_of_pair h₂
        intro z hz
        by_contra hno
        rw [not_or] at hno
        exact hthird ⟨z, hz, hno⟩
      rw [hrest] at h₂
      have hembedding : C.embedding a ≠ C.embedding b := by
        intro hembedding
        exact halike (alike_of_pair h₂ hname hindex htext hembedding)
      apply not_stable_of_twins (fun v ↦ decide (v = C.embedding a)) hne hname hindex h₂ h₂
      · simp
      · refine .inr ⟨⟨List.mem_cons_self, by simp⟩, fun _ ↦ ?_⟩
        simpa using hembedding.symm
  · apply not_stable_of_twins (fun _ ↦ true) hne hname hindex h₂ h₂
    · exact List.pairwise_of_forall fun _ _ _ ↦ rfl
    · exact .inl htext

/-! ## Nothing to tell apart -/

section

variable [DecidableEq φ] {C : Corpus φ ε} {G : Engine ε} {P P' : Project C G}

/-- The hits of a query are all that changes. -/
theorem foldl_seeVector (e : ε) {l : List (φ × Nat)} (hl : l.Nodup)
    (known : φ × Nat → Option Shown) (y : φ × Nat) :
    l.foldl (seeVector C G e) known y =
      if y ∈ l then some (better C G e y (known y)) else known y := by
  induction l generalizing known with
  | nil => rfl
  | cons x l ih =>
      obtain ⟨hx, hl⟩ := List.nodup_cons.mp hl
      rw [List.foldl_cons, ih hl, seeVector_eq]
      by_cases hyx : y = x
      · subst hyx
        rw [if_neg hx, Function.update_self, if_pos List.mem_cons_self]
      · simp only [Function.update_of_ne hyx, List.mem_cons, hyx, false_or]

/-- What is known already does not change. -/
theorem foldl_seeFts {l : List (φ × Nat)} {known : φ × Nat → Option Shown}
    (hl : ∀ x ∈ l, (known x).isSome) : l.foldl (seeFts C) known = known := by
  induction l with
  | nil => rfl
  | cons x l ih =>
      rw [List.forall_mem_cons] at hl
      obtain ⟨v, hv⟩ := Option.isSome_iff_exists.mp hl.1
      have hsee : seeFts C known x = known := by
        rw [seeFts, hv]
      rw [List.foldl_cons, hsee]
      exact ih hl.2

omit [DecidableEq φ] in
/-- Both chunks are hits of every query. -/
theorem Corpus.Alike.mem_hits (h : C.Alike) {n : Nat} (hn : 2 ≤ n) {e : ε} {x : φ × Nat} :
    x ∈ P.hits n e ↔ x ∈ C.chunks := by
  have hall : (P.ranking e).take n = P.ranking e := by
    apply List.take_of_length_le
    rw [(P.perm e).length_eq, h.length_eq]
    exact hn
  rw [Project.mem_hits, hall, (P.perm e).mem_iff]

omit [DecidableEq φ] in
theorem Corpus.Alike.better_eq (h : C.Alike) (e : ε) (m : Option Shown) {x y : φ × Nat}
    (hx : x ∈ C.chunks) (hy : y ∈ C.chunks) : better C G e x m = better C G e y m := by
  have hscore : hitScore C G e x = hitScore C G e y := by
    rw [hitScore, hitScore, h.embedding_eq x hx y hy]
  have hentry : ∀ score, C.entry x score = C.entry y score := by
    intro score
    rw [Corpus.entry, Corpus.entry, h.filename_eq x hx y hy, h.index_eq x hx y hy,
      h.text_eq x hx y hy]
  cases m with
  | none => rw [better, better, hscore, hentry]
  | some prev => rw [better, better, hscore, hentry]

/-- Two runs that have seen the same chunks, of which they know the same. -/
structure Seen.Level (C : Corpus φ ε) (s s' : Seen φ) : Prop where
  known : ∃ m, ∀ x ∈ C.chunks, s.known x = m ∧ s'.known x = m
  listed : ∀ x, x ∈ (s.vecLists ++ s.ftsLists).flatten ↔ x ∈ (s'.vecLists ++ s'.ftsLists).flatten

/-- One query. -/
theorem Corpus.Alike.level_query (h : C.Alike) {n : Nat} (hn : 2 ≤ n) {S : Settings} {topK : Nat}
    {q : String} {e : ε} {s s' : Seen φ} (hlevel : s.Level C s') :
    (s.query C G e (P.hits n e) (P.ftsHits S topK q)).Level C
      (s'.query C G e (P'.hits n e) (P'.ftsHits S topK q)) := by
  have hknown : ∀ (P : Project C G) (s : Seen φ) (x), x ∈ C.chunks →
      (s.query C G e (P.hits n e) (P.ftsHits S topK q)).known x =
        some (better C G e x (s.known x)) := by
    intro P s x hx
    have hnodup := P.nodup_hits n e
    have hfts : ∀ y ∈ P.ftsHits S topK q,
        ((P.hits n e).foldl (seeVector C G e) s.known y).isSome := by
      intro y hy
      rw [foldl_seeVector e hnodup, if_pos ((h.mem_hits hn).mpr (P.mem_of_mem_ftsHits hy))]
      rfl
    show (P.ftsHits S topK q).foldl (seeFts C) _ x = _
    rw [foldl_seeFts hfts, foldl_seeVector e hnodup, if_pos ((h.mem_hits hn).mpr hx)]
  obtain ⟨m, hm⟩ := hlevel.known
  constructor
  · obtain ⟨x₀, hx₀⟩ : ∃ x, x ∈ C.chunks := by
      apply List.exists_mem_of_length_pos
      rw [h.length_eq]
      norm_num
    refine ⟨some (better C G e x₀ m), fun x hx ↦ ?_⟩
    rw [hknown P s x hx, hknown P' s' x hx, (hm x hx).1, (hm x hx).2, h.better_eq e m hx hx₀]
    exact ⟨rfl, rfl⟩
  · intro x
    have hfts : ∀ P : Project C G, x ∈ P.ftsHits S topK q → x ∈ C.chunks :=
      fun P ↦ P.mem_of_mem_ftsHits
    have := hfts P
    have := hfts P'
    rw [Seen.mem_query, Seen.mem_query, h.mem_hits hn, h.mem_hits hn, hlevel.listed x]
    tauto

/-- If the same is known of all chunks, their order does not matter. -/
theorem Project.Follows.shown_eq_replicate {acc : Acc} {s : Seen φ} (hfollows : P.Follows acc s)
    (hsound : s.Sound C) {m : Option Shown} (hm : ∀ x ∈ C.chunks, s.known x = m) :
    (acc.fusedIds.filterMap fun i ↦ (acc.byId.lookup i).map shown) =
      (List.replicate (s.vecLists ++ s.ftsLists).flatten.dedup.length m).filterMap id := by
  have hperm : acc.fusedIds.Perm ((s.vecLists ++ s.ftsLists).flatten.dedup.map P.chunkId) := by
    rw [hfollows.fusedIds_eq, ← List.dedup_map_of_injective P.chunkId_injective, List.map_flatten]
    exact List.perm_insertionSort _ _
  have hsame : ∀ i ∈ acc.fusedIds, (acc.byId.lookup i).map shown = m := by
    intro i hi
    obtain ⟨x, hx, rfl⟩ := List.mem_map.mp (hperm.subset hi)
    exact (hfollows.table x).trans (hm x (hsound.listed x (List.mem_dedup.mp hx)).1)
  rw [← List.length_map P.chunkId, ← hperm.length_eq, ← List.map_const', List.filterMap_map]
  exact List.filterMap_congr hsame

/-- Two alike chunks are shown alike. -/
theorem Corpus.Alike.answer_eq (h : C.Alike) (S : Settings) (queries : List String)
    (topK : Option Nat) : P.answer S queries topK = P'.answer S queries topK := by
  apply answers_eq (R := fun s s' ↦ 0 < effectiveTopK S topK → s.Level C s')
  · apply foldlM_related
    · intro s s' q hlevel
      cases he : G.embedOne q with
      | error err => exact .inl ⟨err, rfl, rfl⟩
      | ok e =>
          refine .inr ⟨_, _, rfl, rfl, fun hpos ↦ ?_⟩
          have hn : 2 ≤ fetchCount S (effectiveTopK S topK) none := by
            have hmax : effectiveTopK S topK + 1 ≤ fetchCount S (effectiveTopK S topK) none :=
              Nat.le_max_right _ _
            omega
          exact h.level_query hn (hlevel hpos)
    · intro _
      exact ⟨⟨none, fun _ _ ↦ ⟨rfl, rfl⟩⟩, fun _ ↦ Iff.rfl⟩
  · intro acc acc' s s' hfollows hfollows' hsound hsound' hlevel
    rcases Nat.eq_zero_or_pos (effectiveTopK S topK) with hzero | hpos
    · rw [hzero, List.take_zero, List.take_zero]
    · obtain ⟨⟨m, hm⟩, hlisted⟩ := hlevel hpos
      have hperm : (s.vecLists ++ s.ftsLists).flatten.dedup.Perm
          (s'.vecLists ++ s'.ftsLists).flatten.dedup := by
        rw [List.perm_ext_iff_of_nodup (List.nodup_dedup _) (List.nodup_dedup _)]
        intro x
        rw [List.mem_dedup, List.mem_dedup, hlisted x]
      rw [hfollows.shown_eq_replicate hsound fun x hx ↦ (hm x hx).1,
        hfollows'.shown_eq_replicate hsound' fun x hx ↦ (hm x hx).2, hperm.length_eq]

/-- If nothing is returned, there is nothing to tell apart. -/
theorem answer_eq_of_zero {S : Settings} {topK : Option Nat} (h : effectiveTopK S topK = 0)
    (queries : List String) : P.answer S queries topK = P'.answer S queries topK := by
  apply answers_eq (R := fun _ _ ↦ True)
  · apply foldlM_related
    · intro s s' q _
      cases he : G.embedOne q with
      | error err => exact .inl ⟨err, rfl, rfl⟩
      | ok e => exact .inr ⟨_, _, rfl, rfl, trivial⟩
    · trivial
  · intros
    rw [h, List.take_zero, List.take_zero]

/-- Of two chunks, both are hits. -/
theorem Corpus.Distinct.answer_eq_of_length_le (h : C.Distinct) (hlen : C.chunks.length ≤ 2)
    (S : Settings) (queries : List String) (topK : Option Nat) :
    P.answer S queries topK = P'.answer S queries topK := by
  rcases Nat.eq_zero_or_pos (effectiveTopK S topK) with hzero | hpos
  · exact answer_eq_of_zero hzero queries
  · have hmax : effectiveTopK S topK + 1 ≤ fetchCount S (effectiveTopK S topK) none :=
      Nat.le_max_right _ _
    exact h.answer_eq S queries topK (sameHits_of_length_le (by omega) queries)

end

/-- What `retrieve` returns does not depend on ids or on Chroma's order just if there are at most
two chunks, which name and index tell apart or between which there is nothing to tell apart.  In
larger projects that name and index tell apart, it depends on the order only if Chroma cuts its
answer off between chunks at one distance. -/
theorem stable_iff [Nontrivial ε] (C : Corpus FileId ε) :
    (C.Stable ↔ C.chunks.length ≤ 2 ∧ (C.Distinct ∨ C.Alike)) ∧
      (C.Distinct → ∀ (G : Engine ε) (P P' : Project C G) (S : Settings) (queries : List String)
        (topK : Option Nat), P.Gap (fetchCount S (effectiveTopK S topK) none) queries →
          P.answer S queries topK = P'.answer S queries topK) := by
  classical
  refine ⟨⟨fun hstable ↦ ?_, ?_⟩, ?_⟩
  · have hor : C.Distinct ∨ C.Alike := by
      by_contra hno
      rw [not_or] at hno
      exact not_stable hno.1 hno.2 hstable
    refine ⟨?_, hor⟩
    rcases hor with hdistinct | halike
    · by_contra hlen
      obtain ⟨e₁, e₂, hne⟩ := exists_pair_ne ε
      exact not_stable_of_three e₁ e₂ hdistinct (by omega) hstable
    · exact halike.length_eq.le
  · rintro ⟨hlen, hdistinct | halike⟩
    · intro G P P' S queries topK
      exact hdistinct.answer_eq_of_length_le hlen S queries topK
    · intro G P P' S queries topK
      exact halike.answer_eq S queries topK
  · intro hdistinct G P P' S queries topK hgap
    exact hdistinct.answer_eq S queries topK (sameHits_of_gap hgap)

/-! ## Two read-me files -/

/-- Two files of one name. -/
def readmes : Corpus FileId Bool where
  chunks := [("f", 0), ("g", 0)]
  nodup := by decide
  filename _ := "README.md"
  text x := if x.1 = "f" then "install" else "usage"
  embedding x := decide (x.1 = "f")

theorem stable_iff_readmes : readmes.Stable ↔
    readmes.chunks.length ≤ 2 ∧ (readmes.Distinct ∨ readmes.Alike) :=
  (stable_iff readmes).1

/-- Either query is near to the text that it is. -/
def readmeEngine : Engine Bool where
  embedOne q := .ok (decide (q = "install"))
  distance e v := if e = v then 0 else 1
  lexemes _ := []
  ln _ := 1
  sparseMaxDf := 1
  contentHash := id
  collation := id
  collation_inj := Function.injective_id

/-- The nearer file comes first. -/
def readmeProject (fileId : FileId → FileId) (h : fileId.Injective) :
    Project readmes readmeEngine where
  fileId := fileId
  fileId_inj := h
  ranking e := if e then [("f", 0), ("g", 0)] else [("g", 0), ("f", 0)]
  perm e := by cases e <;> decide
  sorted e := by cases e <;> decide

/-- The ids of the two files, changed over. -/
def changedOver : FileId → FileId := fun i ↦ if i = "f" then "g" else if i = "g" then "f" else i

theorem changedOver_injective : changedOver.Injective := by
  apply Function.Involutive.injective
  intro i
  simp only [changedOver]
  split_ifs <;> simp_all

/-- The fused scores of the two files are the same, and their ids decide. -/
theorem readmes_not_stable :
    (readmeProject id Function.injective_id).answer twinSettings ["install", "usage"] none =
        .ok [⟨"README.md", 0, "install", 1⟩] ∧
      (readmeProject changedOver changedOver_injective).answer twinSettings ["install", "usage"]
        none = .ok [⟨"README.md", 0, "usage", 1⟩] ∧
      ¬readmes.Stable := by
  have hid : (readmeProject id Function.injective_id).answer twinSettings ["install", "usage"]
      none = .ok [⟨"README.md", 0, "install", 1⟩] := by
    with_unfolding_all decide
  have hover : (readmeProject changedOver changedOver_injective).answer twinSettings
      ["install", "usage"] none = .ok [⟨"README.md", 0, "usage", 1⟩] := by
    with_unfolding_all decide
  refine ⟨hid, hover, fun hstable ↦ ?_⟩
  have heq := hstable readmeEngine (readmeProject id Function.injective_id)
    (readmeProject changedOver changedOver_injective) twinSettings ["install", "usage"] none
  rw [hid, hover] at heq
  exact absurd (congrArg Shown.text (List.singleton_inj.mp (Except.ok.inj heq))) (by decide)

end Adapta.Rag
