import Adapta.Rag.Relabel

/-!
# The first of an answer

Which chunk `retrieve` puts first, and with which score.  An id whose fused score is greater than
all others, by more than the rounding takes away, comes first (`rrfFuse_eq_cons`); if one chunk
is returned, it is that one.  What is known of a chunk has the best score of the hits so far.
-/

namespace Adapta.Rag

open Lib

variable {φ ε : Type}

/-! ## The first of the answer -/

section

variable {ι κ : Type*} [LinearOrder ι] [LinearOrder κ]

/-- An id with the greatest score comes first. -/
theorem rrfFuse_eq_cons {k : Nat} {tieKey : ι → WithBot κ} {lists : List (List ι)} {i : ι}
    (hi : i ∈ lists.flatten)
    (hfirst : ∀ j ∈ lists.flatten, j ≠ i →
      rrfScore k lists j + 1 / 10 ^ 12 < rrfScore k lists i) :
    ∃ rest, rrfFuse k tieKey lists = i :: rest := by
  have hmem : i ∈ rrfFuse k tieKey lists := by
    rw [mem_rrfFuse]
    exact List.mem_flatten.mp hi
  have hsorted : (rrfFuse k tieKey lists).Pairwise fun i j ↦
      rrfKey k tieKey lists i ≤ rrfKey k tieKey lists j := pairwise_sort _ _
  cases hfuse : rrfFuse k tieKey lists with
  | nil =>
      rw [hfuse] at hmem
      cases hmem
  | cons j rest =>
      rw [hfuse] at hmem hsorted
      rcases List.mem_cons.mp hmem with rfl | hrest
      · exact ⟨rest, rfl⟩
      · by_cases hji : j = i
        · exact ⟨rest, by rw [hji]⟩
        · have hj : j ∈ lists.flatten := by
            have : j ∈ rrfFuse k tieKey lists := hfuse ▸ List.mem_cons_self
            exact List.mem_flatten.mpr (mem_rrfFuse.mp this)
          have hle := (List.pairwise_cons.mp hsorted).1 i hrest
          exact absurd (rrfKey_lt (hfirst j hj hji)) (not_lt_of_ge hle)

end

section

variable {C : Corpus FileId ε} {G : Engine ε} {P : Project C G} {S : Settings}

/-- The queries' hits, when every query is embedded. -/
theorem seenRun_eq_ok {embed : String → ε} (hembed : ∀ q, G.embedOne q = .ok (embed q))
    (vec : ε → List (FileId × Nat)) (fts : String → List (FileId × Nat)) (queries : List String) :
    ∃ s, seenRun C G vec fts queries = .ok s ∧
      s.vecLists = queries.map (fun q ↦ vec (embed q)) ∧ s.ftsLists = queries.map fts := by
  have hrun : ∀ s₀ : Seen FileId, ∃ s, queries.foldlM (fun s q ↦
      (G.embedOne q).map fun e ↦ s.query C G e (vec e) (fts q)) s₀ = .ok s ∧
      s.vecLists = s₀.vecLists ++ queries.map (fun q ↦ vec (embed q)) ∧
      s.ftsLists = s₀.ftsLists ++ queries.map fts := by
    induction queries with
    | nil =>
        intro s₀
        exact ⟨s₀, rfl, (List.append_nil _).symm, (List.append_nil _).symm⟩
    | cons q queries ih =>
        intro s₀
        obtain ⟨s, hs, hvec, hfts⟩ := ih (s₀.query C G (embed q) (vec (embed q)) (fts q))
        refine ⟨s, ?_, ?_, ?_⟩
        · rw [List.foldlM_cons, hembed]
          exact hs
        · rw [hvec, Seen.query, List.append_assoc]
          rfl
        · rw [hfts, Seen.query, List.append_assoc]
          rfl
  exact hrun .empty

/-- The one chunk that is returned is the one with the greatest score. -/
theorem answer_eq_singleton {queries : List String} {s : Seen FileId} {x : FileId × Nat}
    (hk : S.ragTopK = 1)
    (hseen : seenRun C G (P.hits (fetchCount S 1 none)) (P.ftsHits S 1) queries = .ok s)
    (hx : x ∈ (s.vecLists ++ s.ftsLists).flatten)
    (hfirst : ∀ i, i ≠ P.chunkId x →
      rrfScore rrfK ((s.vecLists ++ s.ftsLists).map (List.map P.chunkId)) i + 1 / 10 ^ 12 <
        rrfScore rrfK ((s.vecLists ++ s.ftsLists).map (List.map P.chunkId)) (P.chunkId x)) :
    ∃ score, s.known x = some (C.entry x score) ∧
      P.answer S queries none = .ok [C.entry x score] := by
  have hone : effectiveTopK S none = 1 := hk
  have hsound : s.Sound C :=
    seenRun_sound (fun _ _ ↦ P.mem_of_mem_hits) (fun _ _ ↦ P.mem_of_mem_ftsHits) hseen
  obtain ⟨v, hv⟩ := Option.isSome_iff_exists.mp (hsound.listed x hx).2
  obtain ⟨score, rfl⟩ := hsound.genuine x v hv
  refine ⟨score, hv, ?_⟩
  rcases P.answer_eq S queries none with ⟨err, hrun, -⟩ | ⟨acc, s', hrun, hfollows, hanswer⟩
  · rw [hone, hseen] at hrun
    cases hrun
  · rw [hone, hseen] at hrun
    cases hrun
    obtain ⟨rest, hrest⟩ : ∃ rest, acc.fusedIds = P.chunkId x :: rest := by
      rw [hfollows.fusedIds_eq]
      apply rrfFuse_eq_cons
      · rw [← List.map_flatten]
        exact List.mem_map_of_mem hx
      · intro i _ hne
        exact hfirst i hne
    have hsome : (acc.byId.lookup (P.chunkId x)).map shown = some (C.entry x score) :=
      (hfollows.table x).trans hv
    rw [hanswer, hone, hrest, List.filterMap_cons, hsome]
    rfl

end

/-! ## The score that is shown -/

section

variable {C : Corpus φ ε} {G : Engine ε} {x : φ × Nat} {bound : Rat} {e : ε}

/-- What a vector hit makes of what is known of its chunk. -/
def better (C : Corpus φ ε) (G : Engine ε) (e : ε) (x : φ × Nat) : Option Shown → Shown
  | none => C.entry x (hitScore C G e x)
  | some prev => if prev.score < hitScore C G e x then C.entry x (hitScore C G e x) else prev

theorem le_better (e : ε) (x : φ × Nat) (prev : Shown) :
    prev.score ≤ (better C G e x (some prev)).score := by
  rw [better]
  split
  · next hlt => exact hlt.le
  · exact le_rfl

theorem hitScore_le_better (e : ε) (x : φ × Nat) (m : Option Shown) :
    hitScore C G e x ≤ (better C G e x m).score := by
  cases m with
  | none => exact le_rfl
  | some prev =>
      rw [better]
      split
      · exact le_rfl
      · next hle => exact not_lt.mp hle

theorem better_le {m : Option Shown} (hprev : ∀ v, m = some v → v.score ≤ bound)
    (hhit : hitScore C G e x ≤ bound) : (better C G e x m).score ≤ bound := by
  cases m with
  | none => exact hhit
  | some prev =>
      rw [better]
      split
      · exact hhit
      · exact hprev prev rfl

end

section

variable [DecidableEq φ] {C : Corpus φ ε} {G : Engine ε} {known : φ × Nat → Option Shown}
  {x y : φ × Nat} {bound : Rat} {e : ε}

theorem seeVector_eq (e : ε) (known : φ × Nat → Option Shown) (x : φ × Nat) :
    seeVector C G e known x = Function.update known x (some (better C G e x (known x))) := by
  rw [seeVector]
  split
  · next hnone => rw [hnone, better]
  · next prev hprev =>
    rw [hprev, better]
    split
    · rfl
    · rw [← hprev, Function.update_eq_self]

/-- `x` is known with at least this score. -/
def ScoreAtLeast (known : φ × Nat → Option Shown) (x : φ × Nat) (bound : Rat) : Prop :=
  ∃ v, known x = some v ∧ bound ≤ v.score

/-- If `x` is known, it is with at most this score. -/
def ScoreAtMost (known : φ × Nat → Option Shown) (x : φ × Nat) (bound : Rat) : Prop :=
  ∀ v, known x = some v → v.score ≤ bound

theorem ScoreAtLeast.seeVector (h : ScoreAtLeast known x bound) :
    ScoreAtLeast (seeVector C G e known y) x bound := by
  obtain ⟨v, hv, hle⟩ := h
  rw [seeVector_eq]
  by_cases hxy : x = y
  · subst hxy
    refine ⟨_, Function.update_self .., ?_⟩
    rw [hv]
    exact hle.trans (le_better e x v)
  · exact ⟨v, by rw [Function.update_of_ne hxy, hv], hle⟩

/-- A hit is known with at least its score. -/
theorem scoreAtLeast_seeVector : ScoreAtLeast (seeVector C G e known x) x (hitScore C G e x) := by
  rw [seeVector_eq]
  exact ⟨_, Function.update_self .., hitScore_le_better e x _⟩

theorem ScoreAtLeast.seeFts (h : ScoreAtLeast known x bound) :
    ScoreAtLeast (seeFts C known y) x bound := by
  obtain ⟨v, hv, hle⟩ := h
  rw [Adapta.Rag.seeFts]
  split
  · next hnone =>
    have hyx : x ≠ y := by
      rintro rfl
      rw [hv] at hnone
      cases hnone
    exact ⟨v, by rw [Function.update_of_ne hyx, hv], hle⟩
  · exact ⟨v, hv, hle⟩

theorem ScoreAtMost.seeVector (h : ScoreAtMost known x bound)
    (hy : y = x → hitScore C G e y ≤ bound) : ScoreAtMost (seeVector C G e known y) x bound := by
  intro v hv
  rw [seeVector_eq] at hv
  by_cases hxy : x = y
  · subst hxy
    rw [Function.update_self] at hv
    cases hv
    exact better_le h (hy rfl)
  · rw [Function.update_of_ne hxy] at hv
    exact h v hv

theorem ScoreAtMost.seeFts (h : ScoreAtMost known x bound) (hbound : 0 ≤ bound) :
    ScoreAtMost (seeFts C known y) x bound := by
  rw [Adapta.Rag.seeFts]
  split
  · intro v hv
    by_cases hyx : y = x
    · subst hyx
      rw [Function.update_self] at hv
      cases hv
      exact hbound
    · rw [Function.update_of_ne (Ne.symm hyx)] at hv
      exact h v hv
  · exact h

theorem ScoreAtLeast.query {s : Seen φ} {vec fts : List (φ × Nat)}
    (h : ScoreAtLeast s.known x bound ∨ x ∈ vec ∧ bound ≤ hitScore C G e x) :
    ScoreAtLeast (s.query C G e vec fts).known x bound := by
  have hvec : ScoreAtLeast (vec.foldl (Rag.seeVector C G e) s.known) x bound := by
    generalize s.known = known at h
    induction vec generalizing known with
    | nil => exact h.resolve_right fun hmem ↦ List.not_mem_nil hmem.1
    | cons y vec ih =>
        apply ih
        rcases h with h | ⟨hmem, hle⟩
        · exact .inl h.seeVector
        · rcases List.mem_cons.mp hmem with rfl | hmem
          · have hhit : ScoreAtLeast (Rag.seeVector C G e known x) x (hitScore C G e x) :=
              scoreAtLeast_seeVector
            obtain ⟨v, hv, hscore⟩ := hhit
            exact .inl ⟨v, hv, hle.trans hscore⟩
          · exact .inr ⟨hmem, hle⟩
  show ScoreAtLeast (fts.foldl (Rag.seeFts C) _) x bound
  generalize vec.foldl (Rag.seeVector C G e) s.known = known at hvec
  induction fts generalizing known with
  | nil => exact hvec
  | cons y fts ih => exact ih _ hvec.seeFts

theorem ScoreAtMost.query {s : Seen φ} {vec fts : List (φ × Nat)} (hbound : 0 ≤ bound)
    (h : ScoreAtMost s.known x bound) (hx : x ∈ vec → hitScore C G e x ≤ bound) :
    ScoreAtMost (s.query C G e vec fts).known x bound := by
  have hvec : ScoreAtMost (vec.foldl (Rag.seeVector C G e) s.known) x bound := by
    generalize s.known = known at h
    induction vec generalizing known with
    | nil => exact h
    | cons y vec ih =>
        apply ih (fun hmem ↦ hx (List.mem_cons_of_mem _ hmem))
        apply h.seeVector
        rintro rfl
        exact hx List.mem_cons_self
  show ScoreAtMost (fts.foldl (Rag.seeFts C) _) x bound
  generalize vec.foldl (Rag.seeVector C G e) s.known = known at hvec
  induction fts generalizing known with
  | nil => exact hvec
  | cons y fts ih => exact ih _ (hvec.seeFts hbound)

variable {vec : ε → List (φ × Nat)} {fts : String → List (φ × Nat)} {queries : List String}
  {s : Seen φ}

/-- A hit of the first query is known with at least its score. -/
theorem seenRun_scoreAtLeast {q : String} (he : G.embedOne q = .ok e) (hx : x ∈ vec e)
    (h : seenRun C G vec fts (q :: queries) = .ok s) :
    ScoreAtLeast s.known x (hitScore C G e x) := by
  rw [seenRun, List.foldlM_cons, he] at h
  obtain ⟨s₁, hs₁, hrest⟩ := bind_eq_ok.mp h
  cases hs₁
  apply foldlM_keeps (P := fun s ↦ ScoreAtLeast s.known x (hitScore C G e x)) _ hrest
  · exact ScoreAtLeast.query (.inr ⟨hx, le_rfl⟩)
  · intro s q s' hstep hs
    obtain ⟨e, -, rfl⟩ := map_eq_ok.mp hstep
    exact ScoreAtLeast.query (.inl hs)

/-- No score is greater than those of the hits, and the placeholder. -/
theorem seenRun_scoreAtMost (hbound : 0 ≤ bound) (hvec : ∀ e, x ∈ vec e → hitScore C G e x ≤ bound)
    (h : seenRun C G vec fts queries = .ok s) : ScoreAtMost s.known x bound := by
  apply foldlM_keeps (P := fun s ↦ ScoreAtMost s.known x bound) _ h
  · exact nofun
  · intro s q s' hstep hs
    obtain ⟨e, -, rfl⟩ := map_eq_ok.mp hstep
    exact ScoreAtMost.query hbound hs (hvec e)

end

end Adapta.Rag
