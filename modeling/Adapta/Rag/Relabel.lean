import Adapta.Rag.Corpus
import Adapta.Rag.Fusion

/-!
# Ranking and ids

Whether the ids of a project show in what `retrieve` returns.  The three sorts of the pipeline
(vector hits, full-text hits, fused ids) break ties by the name of the file and the index of the
chunk.  Where these tell the chunks apart, the run is that of a table of contents in which there
are no ids (`Seen`, `contentOrder`).  Where two chunks have one name and one index, the order
falls to Chroma or to the ids.
-/

namespace Adapta.Rag

open Lib

variable {φ ε : Type}

/-! ## Chunk ids -/

section

variable {C : Corpus φ ε} {G : Engine ε} {P : Project C G}

/-- A file's id and an index are read off the id of the chunk. -/
theorem Project.chunkId_injective : P.chunkId.Injective := by
  intro x y h
  have hlist : (P.fileId x.1).toList ++ '_' :: Nat.toDigits 10 x.2 =
      (P.fileId y.1).toList ++ '_' :: Nat.toDigits 10 y.2 := by
    have hto := congrArg String.toList h
    simpa [Project.chunkId, String.toList_append, Nat.repr] using hto
  -- the digits are what follows the last underscore
  have hdigits : ∀ (s : List Char) (n : Nat),
      ((s ++ '_' :: Nat.toDigits 10 n).reverse.takeWhile (· ≠ '_')).reverse =
        Nat.toDigits 10 n := by
    intro s n
    have hall : ∀ c ∈ (Nat.toDigits 10 n).reverse, decide (c ≠ '_') = true := by
      intro c hc
      have hdigit := Nat.isDigit_of_mem_toDigits (by decide) (by decide) (List.mem_reverse.mp hc)
      rw [decide_eq_true_eq]
      rintro rfl
      exact absurd hdigit (by decide)
    rw [List.reverse_append, List.reverse_cons, List.append_assoc, List.singleton_append,
      List.takeWhile_append_of_pos hall, List.takeWhile_cons_of_neg (by decide), List.append_nil,
      List.reverse_reverse]
  have hindex : Nat.toDigits 10 x.2 = Nat.toDigits 10 y.2 := by
    rw [← hdigits _ x.2, hlist, hdigits]
  have hfile : P.fileId x.1 = P.fileId y.1 := by
    rw [hindex] at hlist
    exact String.toList_inj.mp (List.append_cancel_right hlist)
  refine Prod.ext (P.fileId_inj hfile) ?_
  rw [← Nat.ofDigitChars_ten_toDigits (n := x.2), hindex, Nat.ofDigitChars_ten_toDigits]

end

/-! ## The legs -/

section

variable {C : Corpus φ ε} {G : Engine ε} {P : Project C G} {S : Settings}
  {topK n : Nat} {q : String} {e : ε}

/-- The key by which the hits of a query are ordered. -/
def hitKey (C : Corpus φ ε) (G : Engine ε) (e : ε) (x : φ × Nat) : Rat ×ₗ String ×ₗ Nat :=
  toLex (G.distance e (C.embedding x), chunkTieKey (C.filename x.1) x.2)

/-- The chunks of the vector leg. -/
def Project.hits (P : Project C G) (n : Nat) (e : ε) : List (φ × Nat) :=
  ((P.ranking e).take n).insertionSort fun x y ↦ hitKey C G e x ≤ hitKey C G e y

/-- The chunks of the full-text leg. -/
def Project.ftsHits (P : Project C G) (S : Settings) (topK : Nat) (q : String) : List (φ × Nat) :=
  (P.ftsOrder q).take (topK * S.ragSparseFetchMultiplier)

theorem Project.mem_hits {x : φ × Nat} : x ∈ P.hits n e ↔ x ∈ (P.ranking e).take n :=
  List.mem_insertionSort _

theorem Project.mem_of_mem_hits {x : φ × Nat} (hx : x ∈ P.hits n e) : x ∈ C.chunks :=
  (P.perm e).mem_iff.mp (List.mem_of_mem_take (P.mem_hits.mp hx))

theorem Project.nodup_ranking (P : Project C G) (e : ε) : (P.ranking e).Nodup :=
  (P.perm e).nodup_iff.mpr C.nodup

theorem Project.nodup_hits (P : Project C G) (n : Nat) (e : ε) : (P.hits n e).Nodup := by
  rw [Project.hits, (List.perm_insertionSort _ _).nodup_iff]
  exact (P.nodup_ranking e).sublist (List.take_sublist _ _)

theorem Project.mem_of_mem_ftsOrder {x : φ × Nat} (hx : x ∈ P.ftsOrder q) : x ∈ C.chunks :=
  (List.mem_filter.mp ((List.mem_insertionSort _).mp hx)).1

theorem Project.mem_of_mem_ftsHits {x : φ × Nat} (hx : x ∈ P.ftsHits S topK q) : x ∈ C.chunks :=
  P.mem_of_mem_ftsOrder (List.mem_of_mem_take hx)

variable [DecidableEq φ]

theorem vectorLeg_eq : vectorLeg P.world P.collection n none q =
    (G.embedOne q).map fun e ↦ (P.hits n e).map (P.vectorHit e) := by
  have hall : ∀ e, ((P.ranking e).map (P.vectorHit e)).filter
      (fun x ↦ x.1 ∈ P.collection.vectors) = (P.ranking e).map (P.vectorHit e) := by
    intro e
    rw [List.filter_eq_self]
    intro y hy
    obtain ⟨x, hx, rfl⟩ := List.mem_map.mp hy
    rw [decide_eq_true_eq]
    exact List.mem_map_of_mem ((P.perm e).mem_iff.mp hx)
  have hsort : ∀ e, (((P.ranking e).take n).map (P.vectorHit e)).insertionSort
      (fun x y ↦ vectorKey x ≤ vectorKey y) = (P.hits n e).map (P.vectorHit e) := by
    intro e
    symm
    apply List.map_insertionSort
    intro x _ y _
    rfl
  have htake : ∀ e, chromaQuery P.world P.collection e n none =
      .ok (((P.ranking e).take n).map (P.vectorHit e)) := by
    intro e
    have hnearest : P.world.nearest P.collection e = .ok ((P.ranking e).map (P.vectorHit e)) :=
      congrArg Except.ok (hall e)
    rw [chromaQuery, hnearest, List.map_take]
    exact congrArg (fun l : List (VectorRow × Rat) ↦ Except.ok (l.take n))
      (List.filter_eq_self.mpr fun _ _ ↦ rfl)
  cases hq : G.embedOne q with
  | error err =>
      have hembed : P.world.embedOne q = .error err := hq
      rw [vectorLeg, hembed]
      rfl
  | ok e =>
      refine bind_eq_ok.mpr ⟨e, hq, bind_eq_ok.mpr ⟨_, htake e, ?_⟩⟩
      exact congrArg Except.ok (hsort e)

/-- The database has the name of each file. -/
theorem Project.world_filename {x : φ × Nat} (hx : x ∈ C.chunks) :
    P.world.filename (P.fileId x.1) = some (C.filename x.1) := by
  show (C.chunks.find? fun y ↦ P.fileId y.1 = P.fileId x.1).map (fun y ↦ C.filename y.1) = _
  cases hfind : C.chunks.find? fun y ↦ P.fileId y.1 = P.fileId x.1 with
  | none =>
      have hne : P.fileId x.1 ≠ P.fileId x.1 := by simpa using List.find?_eq_none.mp hfind x hx
      exact absurd rfl hne
  | some y =>
      have hfile : y.1 = x.1 := P.fileId_inj (by simpa using List.find?_some hfind)
      rw [Option.map_some, hfile]

theorem ftsLeg_eq : ftsLeg S P.world "project" topK none q =
    .ok ((P.ftsHits S topK q).map P.ftsHit) := by
  have hrows : ∀ l : List (φ × Nat), (∀ x ∈ l, x ∈ C.chunks) →
      (((l.map P.chunkRow).filter fun r ↦ r.project = "project" ∧
        (none : Option RetrievalFilters).all fun f ↦ f.admits r).filterMap fun r ↦
          (P.world.filename r.file).map fun name ↦ (r, name)) = l.map P.ftsHit := by
    intro l hl
    have hproject : ((l.map P.chunkRow).filter fun r ↦ r.project = "project" ∧
        (none : Option RetrievalFilters).all fun f ↦ f.admits r) = l.map P.chunkRow := by
      rw [List.filter_eq_self]
      intro r hr
      obtain ⟨x, -, rfl⟩ := List.mem_map.mp hr
      rfl
    rw [hproject, List.filterMap_map, ← List.filterMap_eq_map]
    apply List.filterMap_congr
    intro x hx
    show (P.world.filename (P.fileId x.1)).map _ = _
    rw [P.world_filename (hl x hx)]
    rfl
  have hsearch : ftsSearch P.world "project" q (topK * S.ragSparseFetchMultiplier) none =
      .ok ((P.ftsHits S topK q).map P.ftsHit) := by
    rw [Project.ftsHits, List.map_take, ← hrows _ fun _ ↦ P.mem_of_mem_ftsOrder]
    rfl
  rw [ftsLeg, hsearch]

end

/-! ## Fusion without ids -/

section

variable {α ι κ : Type*} [DecidableEq α] [LinearOrder ι] [LinearOrder κ]

/-- The sort key without the id. -/
def contentKey (k : Nat) (tie : α → WithBot κ) (lists : List (List α)) (x : α) :
    Rat ×ₗ WithBot κ :=
  toLex (-roundTo (((contributions k lists).filter fun y ↦ y.1 = x).map Prod.snd).sum 12, tie x)

/-- The fused list, where the tie keys are all different. -/
def contentOrder (k : Nat) (tie : α → WithBot κ) (lists : List (List α)) : List α :=
  lists.flatten.dedup.insertionSort fun x y ↦
    contentKey k tie lists x ≤ contentKey k tie lists y

omit [DecidableEq α] [LinearOrder ι] in
theorem contributions_map (k : Nat) (f : α → ι) (lists : List (List α)) :
    contributions k (lists.map (List.map f)) =
      (contributions k lists).map fun y ↦ (f y.1, y.2) := by
  rw [contributions, contributions, List.flatMap_map, List.map_flatMap]
  congr 1
  funext ranks
  rw [List.zipIdx_map, List.map_map, List.map_map]
  rfl

variable {k : Nat} {tie : α → WithBot κ} {lists : List (List α)} {f : α → ι}

/-- The score of a name is that of what it names. -/
theorem rrfScore_map (hf : f.Injective) (x : α) : rrfScore k (lists.map (List.map f)) (f x) =
    (((contributions k lists).filter fun y ↦ y.1 = x).map Prod.snd).sum := by
  rw [rrfScore, contributions_map, List.filter_map, List.map_map]
  congr 2
  apply List.filter_congr
  intro y _
  exact decide_eq_decide.mpr hf.eq_iff

/-- Where the tie keys are all different, the names do not show. -/
theorem rrfFuse_map {named : ι → WithBot κ} (hf : f.Injective)
    (htie : ∀ x ∈ lists.flatten, named (f x) = tie x)
    (hinj : ∀ x ∈ lists.flatten, ∀ y ∈ lists.flatten, tie x = tie y → x = y) :
    rrfFuse k named (lists.map (List.map f)) = (contentOrder k tie lists).map f := by
  have hperm : ((contentOrder k tie lists).map f).Perm
      (lists.map (List.map f)).flatten.dedup := by
    rw [← List.map_flatten, List.dedup_map_of_injective hf]
    exact (List.perm_insertionSort _ _).map f
  have hmem : ∀ x ∈ contentOrder k tie lists, x ∈ lists.flatten := by
    intro x hx
    exact List.mem_dedup.mp ((List.mem_insertionSort _).mp hx)
  have hsorted : (rrfFuse k named (lists.map (List.map f))).Pairwise fun i j ↦
      rrfKey k named (lists.map (List.map f)) i ≤ rrfKey k named (lists.map (List.map f)) j :=
    pairwise_sort _ _
  apply eq_of_perm_of_pairwise_key (fun i _ j _ ↦ rrfKey_inj) hsorted _
    ((List.perm_insertionSort _ _).trans hperm.symm)
  rw [List.pairwise_map]
  apply (pairwise_sort (contentKey k tie lists) lists.flatten.dedup).imp_of_mem
  intro x y hx hy hle
  rw [rrfKey, rrfKey, rrfScore_map hf, rrfScore_map hf, htie x (hmem x hx), htie y (hmem y hy)]
  rcases Prod.Lex.toLex_le_toLex.mp hle with hlt | ⟨heq, hle⟩
  · exact Prod.Lex.toLex_le_toLex.mpr (.inl hlt)
  · refine Prod.Lex.toLex_le_toLex.mpr (.inr ⟨heq, Prod.Lex.toLex_le_toLex.mpr ?_⟩)
    rcases hle.lt_or_eq with hlt | htie
    · exact .inl hlt
    · rw [hinj x (hmem x hx) y (hmem y hy) htie]
      exact .inr ⟨rfl, le_rfl⟩

end

/-! ## A run without ids -/

/-- What a run has seen of the chunks: what it shows of each candidate, and the ranked lists. -/
structure Seen (φ : Type) where
  known : φ × Nat → Option Shown
  vecLists : List (List (φ × Nat))
  ftsLists : List (List (φ × Nat))

section

variable [DecidableEq φ] (C : Corpus φ ε) (G : Engine ε)

/-- What is shown of a chunk with this score. -/
def Corpus.entry (C : Corpus φ ε) (x : φ × Nat) (score : Rat) : Shown :=
  ⟨C.filename x.1, x.2, C.text x, score⟩

/-- The score of a vector hit. -/
def hitScore (e : ε) (x : φ × Nat) : Rat := 1 - G.distance e (C.embedding x)

/-- A vector hit keeps the better score. -/
def seeVector (e : ε) (known : φ × Nat → Option Shown) (x : φ × Nat) : φ × Nat → Option Shown :=
  match known x with
  | none => Function.update known x (some (C.entry x (hitScore C G e x)))
  | some prev =>
      if prev.score < hitScore C G e x then
        Function.update known x (some (C.entry x (hitScore C G e x)))
      else known

/-- A full-text hit is a candidate if it is none yet. -/
def seeFts (known : φ × Nat → Option Shown) (x : φ × Nat) : φ × Nat → Option Shown :=
  match known x with
  | none => Function.update known x (some (C.entry x 0))
  | some _ => known

/-- The hits of one query. -/
def Seen.query (e : ε) (vec fts : List (φ × Nat)) (s : Seen φ) : Seen φ where
  known := fts.foldl (seeFts C) (vec.foldl (seeVector C G e) s.known)
  vecLists := s.vecLists ++ [vec]
  ftsLists := s.ftsLists ++ [fts]

def Seen.empty : Seen φ := ⟨fun _ ↦ none, [], []⟩

/-- The loop over the queries, for these hits. -/
def seenRun (vec : ε → List (φ × Nat)) (fts : String → List (φ × Nat)) (queries : List String) :
    Except Exc (Seen φ) :=
  queries.foldlM (fun s q ↦ (G.embedOne q).map fun e ↦ s.query C G e (vec e) (fts q)) .empty

variable {C G} {P : Project C G}

/-- The candidates are the known chunks. -/
def Project.Table (P : Project C G) (byId : AList fun _ : ChunkId ↦ RetrievedChunk)
    (known : φ × Nat → Option Shown) : Prop :=
  ∀ x, (byId.lookup (P.chunkId x)).map shown = known x

/-- A run of a project and a run without ids. -/
structure Project.Follows (P : Project C G) (acc : Acc) (s : Seen φ) : Prop where
  table : P.Table acc.byId s.known
  vecLists : acc.vecLists = s.vecLists.map (List.map P.chunkId)
  ftsLists : acc.ftsLists = s.ftsLists.map (List.map P.chunkId)

theorem Project.Table.insert {byId : AList fun _ : ChunkId ↦ RetrievedChunk}
    {known : φ × Nat → Option Shown} (h : P.Table byId known) (x : φ × Nat) (r : RetrievedChunk) :
    P.Table (byId.insert (P.chunkId x) r) (Function.update known x (some (shown r))) := by
  intro y
  by_cases hxy : y = x
  · subst hxy
    rw [AList.lookup_insert, Function.update_self]
    rfl
  · rw [AList.lookup_insert_ne (fun hid ↦ hxy (P.chunkId_injective hid)),
      Function.update_of_ne hxy]
    exact h y

theorem Project.Table.addVector {byId : AList fun _ : ChunkId ↦ RetrievedChunk}
    {known : φ × Nat → Option Shown} (h : P.Table byId known) (e : ε) (x : φ × Nat) :
    P.Table (addVector byId (P.vectorHit e x)) (seeVector C G e known x) := by
  have hx := h x
  have hid : (P.vectorHit e x).1.id = P.chunkId x := rfl
  have hinsert := h.insert x (ofVector (P.vectorHit e x))
  rw [Adapta.Rag.addVector, seeVector, hid, ← hx]
  cases byId.lookup (P.chunkId x) with
  | none => exact hinsert
  | some prev =>
      simp only [Option.map_some]
      by_cases hlt : prev.score < hitScore C G e x
      · have hlt' : prev.score < 1 - (P.vectorHit e x).2 := hlt
        have hlt'' : (shown prev).score < hitScore C G e x := hlt
        rw [if_pos hlt', if_pos hlt'']
        exact hinsert
      · have hlt' : ¬prev.score < 1 - (P.vectorHit e x).2 := hlt
        have hlt'' : ¬(shown prev).score < hitScore C G e x := hlt
        rw [if_neg hlt', if_neg hlt'']
        exact h

theorem Project.Table.addFts {byId : AList fun _ : ChunkId ↦ RetrievedChunk}
    {known : φ × Nat → Option Shown} (h : P.Table byId known) (x : φ × Nat) :
    P.Table (addFts byId (P.ftsHit x)) (seeFts C known x) := by
  have hx := h x
  have hid : (P.ftsHit x).1.id = P.chunkId x := rfl
  have hinsert := h.insert x (ofFts (P.ftsHit x))
  rw [Adapta.Rag.addFts, seeFts, hid, ← hx]
  cases byId.lookup (P.chunkId x) with
  | none => exact hinsert
  | some prev => exact h

omit [DecidableEq φ] in
theorem Project.Table.foldl {α : Type} {f : AList (fun _ : ChunkId ↦ RetrievedChunk) → α → _}
    {g : (φ × Nat → Option Shown) → φ × Nat → φ × Nat → Option Shown} {hit : φ × Nat → α}
    (hstep : ∀ byId known x, P.Table byId known → P.Table (f byId (hit x)) (g known x))
    {byId : AList fun _ : ChunkId ↦ RetrievedChunk} {known : φ × Nat → Option Shown}
    (h : P.Table byId known) (l : List (φ × Nat)) :
    P.Table ((l.map hit).foldl f byId) (l.foldl g known) := by
  induction l generalizing byId known with
  | nil => exact h
  | cons x l ih => exact ih (hstep _ _ x h)

/-- One query. -/
theorem Project.Follows.addQuery {acc : Acc} {s : Seen φ} (h : P.Follows acc s) (S : Settings)
    (topK n : Nat) {q : String} {e : ε} (he : G.embedOne q = .ok e) :
    ∃ acc', addQuery S P.world "project" P.collection topK n none acc q = .ok acc' ∧
      P.Follows acc' (s.query C G e (P.hits n e) (P.ftsHits S topK q)) := by
  have hvec : vectorLeg P.world P.collection n none q =
      .ok ((P.hits n e).map (P.vectorHit e)) := by
    rw [vectorLeg_eq, he]
    rfl
  refine ⟨_, bind_eq_ok.mpr ⟨_, hvec, bind_eq_ok.mpr ⟨_, ftsLeg_eq, rfl⟩⟩, ?_, ?_, ?_⟩
  · exact (h.table.foldl (fun _ _ x h ↦ h.addVector e x) _).foldl (fun _ _ x h ↦ h.addFts x) _
  · show acc.vecLists ++ [((P.hits n e).map (P.vectorHit e)).map fun x ↦ x.1.id] =
      (s.vecLists ++ [P.hits n e]).map (List.map P.chunkId)
    rw [h.vecLists, List.map_map, List.map_append]
    rfl
  · show acc.ftsLists ++ [((P.ftsHits S topK q).map P.ftsHit).map fun x ↦ x.1.id] =
      (s.ftsLists ++ [P.ftsHits S topK q]).map (List.map P.chunkId)
    rw [h.ftsLists, List.map_map, List.map_append]
    rfl

omit [DecidableEq φ] in
theorem Project.follows_empty : P.Follows .empty .empty where
  table _ := rfl
  vecLists := rfl
  ftsLists := rfl

/-- The loop over the queries raises what the run without ids raises, or follows it. -/
theorem Project.follows_run (P : Project C G) (S : Settings) (topK n : Nat)
    (queries : List String) :
    Related P.Follows
      (queries.foldlM (addQuery S P.world "project" P.collection topK n none) .empty)
      (seenRun C G (P.hits n) (P.ftsHits S topK) queries) := by
  apply foldlM_related _ queries Project.follows_empty
  intro acc s q h
  cases he : G.embedOne q with
  | error err =>
      have hvec : vectorLeg P.world P.collection n none q = .error err := by
        rw [vectorLeg_eq, he]
        rfl
      refine .inl ⟨err, ?_, rfl⟩
      rw [Adapta.Rag.addQuery, hvec]
      rfl
  | ok e =>
      obtain ⟨acc', hadd, h'⟩ := h.addQuery S topK n he
      exact .inr ⟨acc', _, hadd, rfl, h'⟩

/-! ## The answer -/

/-- The number of chunks that are returned. -/
def effectiveTopK (S : Settings) (topK : Option Nat) : Nat := (topK.filter (· ≠ 0)).getD S.ragTopK

/-- What is shown of the provenance of a chunk is not. -/
theorem hydrate_shown (cs : List RetrievedChunk) :
    ∃ cs', hydrateProvenance P.world cs = .ok cs' ∧ cs'.map shown = cs.map shown := by
  rw [hydrateProvenance]
  split
  · exact ⟨cs, rfl, rfl⟩
  · refine ⟨_, rfl, ?_⟩
    rw [List.map_map]
    apply List.map_congr_left
    intro c _
    simp only [Function.comp_apply]
    split <;> rfl

/-- The tie key of a candidate. -/
def tieOf (known : Option Shown) : WithBot (String ×ₗ Nat) :=
  known.map fun c ↦ chunkTieKey c.source c.chunkIndex

omit [DecidableEq φ] in
/-- The fused ids of a run that follows one without ids. -/
theorem Project.Follows.fusedIds_eq {acc : Acc} {s : Seen φ} (h : P.Follows acc s) :
    acc.fusedIds = rrfFuse rrfK (fun i ↦ tieOf ((acc.byId.lookup i).map shown))
      ((s.vecLists ++ s.ftsLists).map (List.map P.chunkId)) := by
  rw [Acc.fusedIds, h.vecLists, h.ftsLists, ← List.map_append]
  congr 1
  funext i
  rw [tieOf, Option.map_map]
  rfl

/-- The stages of `retrieve` for a project. -/
theorem retrieve_eq (P : Project C G) (S : Settings) (queries : List String)
    (topK : Option Nat) : retrieve S P.world "project" queries topK none =
    queries.foldlM (addQuery S P.world "project" P.collection (effectiveTopK S topK)
        (fetchCount S (effectiveTopK S topK) none) none) .empty >>= fun acc ↦
      if acc.byId.entries = [] then pure []
      else hydrateProvenance P.world (acc.candidates.take (effectiveTopK S topK)) := rfl

/-- The answer of a project, from what its run has seen. -/
theorem Project.answer_eq (P : Project C G) (S : Settings) (queries : List String)
    (topK : Option Nat) :
    (∃ err, seenRun C G (P.hits (fetchCount S (effectiveTopK S topK) none))
        (P.ftsHits S (effectiveTopK S topK)) queries = .error err ∧
      P.answer S queries topK = .error err) ∨
    ∃ acc s, seenRun C G (P.hits (fetchCount S (effectiveTopK S topK) none))
        (P.ftsHits S (effectiveTopK S topK)) queries = .ok s ∧ P.Follows acc s ∧
      P.answer S queries topK = .ok ((acc.fusedIds.filterMap fun i ↦
        (acc.byId.lookup i).map shown).take (effectiveTopK S topK)) := by
  rcases P.follows_run S (effectiveTopK S topK) (fetchCount S (effectiveTopK S topK) none)
    queries with ⟨err, hrun, hseen⟩ | ⟨acc, s, hrun, hseen, hfollows⟩
  · refine .inl ⟨err, hseen, ?_⟩
    rw [Project.answer, retrieve_eq, hrun]
    rfl
  · refine .inr ⟨acc, s, hseen, hfollows, ?_⟩
    have hshown : ((acc.candidates.take (effectiveTopK S topK)).map shown) =
        (acc.fusedIds.filterMap fun i ↦ (acc.byId.lookup i).map shown).take
          (effectiveTopK S topK) := by
      rw [List.map_take, Acc.candidates, List.map_filterMap]
    rw [Project.answer, retrieve_eq, hrun, ← hshown]
    show Except.map _ (if acc.byId.entries = [] then pure [] else _) = _
    by_cases hnil : acc.byId.entries = []
    · have hnone : acc.candidates = [] := by
        rw [Acc.candidates, List.filterMap_eq_nil_iff]
        intro i _
        rw [AList.lookup, hnil]
        rfl
      rw [if_pos hnil, hnone, List.take_nil]
      rfl
    · obtain ⟨cs, hcs, hmap⟩ :=
        hydrate_shown (P := P) (acc.candidates.take (effectiveTopK S topK))
      rw [if_neg hnil, hcs, ← hmap]
      rfl

end

/-! ## Different names and indexes -/

/-- The name of the file and the index tell the chunks apart. -/
def Corpus.Distinct (C : Corpus φ ε) : Prop :=
  ∀ x ∈ C.chunks, ∀ y ∈ C.chunks, C.filename x.1 = C.filename y.1 → x.2 = y.2 → x = y

section

variable [DecidableEq φ] {C : Corpus φ ε} {G : Engine ε}

/-- What is shown of a candidate is what the corpus has. -/
def Genuine (C : Corpus φ ε) (known : φ × Nat → Option Shown) : Prop :=
  ∀ x v, known x = some v → ∃ score, v = C.entry x score

/-- A step that learns of a chunk, if it is not known already. -/
def Learns (C : Corpus φ ε)
    (g : (φ × Nat → Option Shown) → φ × Nat → φ × Nat → Option Shown) : Prop :=
  ∀ known x, (∃ score, g known x = Function.update known x (some (C.entry x score))) ∨
    g known x = known ∧ (known x).isSome

theorem learns_seeVector (e : ε) : Learns C (seeVector C G e) := by
  intro known x
  rw [seeVector]
  split
  · exact .inl ⟨_, rfl⟩
  · next prev hprev =>
    split
    · exact .inl ⟨_, rfl⟩
    · exact .inr ⟨rfl, by rw [hprev]; rfl⟩

theorem learns_seeFts : Learns C (seeFts C) := by
  intro known x
  rw [seeFts]
  split
  · exact .inl ⟨_, rfl⟩
  · next prev hprev => exact .inr ⟨rfl, by rw [hprev]; rfl⟩

variable {g : (φ × Nat → Option Shown) → φ × Nat → φ × Nat → Option Shown}

theorem Learns.genuine (hg : Learns C g) {known : φ × Nat → Option Shown}
    (h : Genuine C known) (x : φ × Nat) : Genuine C (g known x) := by
  rcases hg known x with ⟨score, hupdate⟩ | ⟨hsame, -⟩
  · intro y v hv
    rw [hupdate] at hv
    by_cases hyx : y = x
    · subst hyx
      rw [Function.update_self] at hv
      cases hv
      exact ⟨score, rfl⟩
    · rw [Function.update_of_ne hyx] at hv
      exact h y v hv
  · rw [hsame]
    exact h

theorem Learns.isSome (hg : Learns C g) {known : φ × Nat → Option Shown} {x y : φ × Nat}
    (h : y = x ∨ (known y).isSome) : (g known x y).isSome := by
  rcases hg known x with ⟨score, hupdate⟩ | ⟨hsame, hx⟩
  · rw [hupdate]
    by_cases hyx : y = x
    · rw [hyx, Function.update_self]
      rfl
    · rw [Function.update_of_ne hyx]
      exact h.resolve_left hyx
  · rw [hsame]
    rcases h with rfl | h
    · exact hx
    · exact h

theorem Learns.foldl_genuine (hg : Learns C g) (l : List (φ × Nat))
    {known : φ × Nat → Option Shown} (h : Genuine C known) : Genuine C (l.foldl g known) := by
  induction l generalizing known with
  | nil => exact h
  | cons x l ih => exact ih (hg.genuine h x)

/-- Everything in a list that has been seen is known. -/
theorem Learns.foldl_isSome (hg : Learns C g) {l : List (φ × Nat)}
    {known : φ × Nat → Option Shown} {y : φ × Nat} (h : y ∈ l ∨ (known y).isSome) :
    (l.foldl g known y).isSome := by
  induction l generalizing known with
  | nil => exact h.resolve_left List.not_mem_nil
  | cons x l ih =>
      apply ih
      rw [List.mem_cons, or_assoc] at h
      rcases h with rfl | hy | hy
      · exact .inr (hg.isSome (.inl rfl))
      · exact .inl hy
      · exact .inr (hg.isSome (.inr hy))

/-- What the lists rank are chunks that are known as they are. -/
structure Seen.Sound (C : Corpus φ ε) (s : Seen φ) : Prop where
  genuine : Genuine C s.known
  listed : ∀ x ∈ (s.vecLists ++ s.ftsLists).flatten, x ∈ C.chunks ∧ (s.known x).isSome

theorem Seen.mem_query {s : Seen φ} {e : ε} {vec fts : List (φ × Nat)} {x : φ × Nat} :
    x ∈ ((s.query C G e vec fts).vecLists ++ (s.query C G e vec fts).ftsLists).flatten ↔
      x ∈ (s.vecLists ++ s.ftsLists).flatten ∨ x ∈ vec ∨ x ∈ fts := by
  simp only [Seen.query, List.flatten_append, List.flatten_cons, List.flatten_nil,
    List.append_nil, List.mem_append]
  tauto

theorem Seen.Sound.query {s : Seen φ} (h : s.Sound C) {e : ε} {vec fts : List (φ × Nat)}
    (hvec : ∀ x ∈ vec, x ∈ C.chunks) (hfts : ∀ x ∈ fts, x ∈ C.chunks) :
    (s.query C G e vec fts).Sound C where
  genuine := learns_seeFts.foldl_genuine fts ((learns_seeVector e).foldl_genuine vec h.genuine)
  listed x hx := by
    have hknown : x ∈ fts ∨ x ∈ vec ∨ (s.known x).isSome →
        ((s.query C G e vec fts).known x).isSome := by
      intro hor
      exact learns_seeFts.foldl_isSome (hor.imp_right (learns_seeVector e).foldl_isSome)
    rcases Seen.mem_query.mp hx with hx | hx | hx
    · exact ⟨(h.listed x hx).1, hknown (.inr (.inr (h.listed x hx).2))⟩
    · exact ⟨hvec x hx, hknown (.inr (.inl hx))⟩
    · exact ⟨hfts x hx, hknown (.inl hx)⟩

theorem seenRun_sound {vec : ε → List (φ × Nat)} {fts : String → List (φ × Nat)}
    (hvec : ∀ e, ∀ x ∈ vec e, x ∈ C.chunks) (hfts : ∀ q, ∀ x ∈ fts q, x ∈ C.chunks)
    {queries : List String} {s : Seen φ} (h : seenRun C G vec fts queries = .ok s) : s.Sound C := by
  apply foldlM_keeps (P := fun s ↦ s.Sound C) _ h
  · exact ⟨nofun, by simp [Seen.empty]⟩
  · intro s q s' hstep hs
    obtain ⟨e, -, rfl⟩ := map_eq_ok.mp hstep
    exact hs.query (hvec e) (hfts q)

theorem seenRun_congr {vec vec' : ε → List (φ × Nat)} {fts fts' : String → List (φ × Nat)}
    {queries : List String}
    (hvec : ∀ q ∈ queries, ∀ e, G.embedOne q = .ok e → vec e = vec' e)
    (hfts : ∀ q ∈ queries, fts q = fts' q) :
    seenRun C G vec fts queries = seenRun C G vec' fts' queries := by
  rw [seenRun, seenRun]
  generalize Seen.empty = s
  induction queries generalizing s with
  | nil => rfl
  | cons q queries ih =>
      rw [List.forall_mem_cons] at hvec hfts
      rw [List.foldlM_cons, List.foldlM_cons]
      cases he : G.embedOne q with
      | error err => rfl
      | ok e =>
          have hstep : s.query C G e (vec e) (fts q) = s.query C G e (vec' e) (fts' q) := by
            rw [hvec.1 e he, hfts.1]
          show List.foldlM _ (s.query C G e (vec e) (fts q)) queries =
            List.foldlM _ (s.query C G e (vec' e) (fts' q)) queries
          rw [hstep]
          exact ih hvec.2 hfts.2 _

/-! ## The same answer -/

variable {P P' : Project C G}

/-- Chroma returns the same hits to the queries of two projects, in whatever order. -/
def SameHits (P P' : Project C G) (n : Nat) (queries : List String) : Prop :=
  ∀ q ∈ queries, ∀ e, G.embedOne q = .ok e →
    ((P.ranking e).take n).Perm ((P'.ranking e).take n)

/-- No chunk that is not returned for a query is as near to it as one that is. -/
def Project.Gap (P : Project C G) (n : Nat) (queries : List String) : Prop :=
  ∀ q ∈ queries, ∀ e, G.embedOne q = .ok e →
    ∀ x ∈ (P.ranking e).take n, ∀ y ∈ (P.ranking e).drop n,
      G.distance e (C.embedding x) < G.distance e (C.embedding y)

/-- Across a gap, the hits are the same. -/
theorem sameHits_of_gap {n : Nat} {queries : List String} (hgap : P.Gap n queries) :
    SameHits P P' n queries := by
  intro q hq e he
  have hperm : (P.ranking e).Perm (P'.ranking e) := (P.perm e).trans (P'.perm e).symm
  have hnodup := P.nodup_ranking e
  have hnodup' := P'.nodup_ranking e
  have hsub : (P.ranking e).take n ⊆ (P'.ranking e).take n := by
    intro x hx
    by_contra hno
    have hx' : x ∈ (P'.ranking e).drop n := by
      have hmem := hperm.mem_iff.mp (List.mem_of_mem_take hx)
      rw [← List.take_append_drop n (P'.ranking e), List.mem_append] at hmem
      exact hmem.resolve_left hno
    -- the hits of the other project are as near as `x`, so they are hits of the first one
    have hnear : (P'.ranking e).take n ⊆ ((P.ranking e).take n).filter fun y ↦ y ≠ x := by
      intro y hy
      have hle : G.distance e (C.embedding y) ≤ G.distance e (C.embedding x) := by
        have hsorted := P'.sorted e
        rw [← List.take_append_drop n (P'.ranking e), List.pairwise_append] at hsorted
        exact hsorted.2.2 y hy x hx'
      have hmem := hperm.mem_iff.mpr (List.mem_of_mem_take hy)
      rw [← List.take_append_drop n (P.ranking e), List.mem_append] at hmem
      rw [List.mem_filter, decide_eq_true_eq]
      refine ⟨hmem.resolve_right fun hdrop ↦ ?_, ?_⟩
      · exact absurd (hgap q hq e he x hx y hdrop) (not_lt_of_ge hle)
      · rintro rfl
        exact hno hy
    have hle := (List.subperm_of_subset (hnodup'.sublist (List.take_sublist _ _)) hnear).length_le
    have hlt : (((P.ranking e).take n).filter fun y ↦ y ≠ x).length <
        ((P.ranking e).take n).length :=
      List.length_filter_lt_length_iff_exists.mpr ⟨x, hx, by simp⟩
    have hdrop := List.length_pos_of_mem hx'
    rw [List.length_drop] at hdrop
    rw [List.length_take] at hle hlt
    omega
  apply (List.subperm_of_subset (hnodup.sublist (List.take_sublist _ _)) hsub).perm_of_length_le
  rw [List.length_take, List.length_take, hperm.length_eq]

omit [DecidableEq φ] in
/-- There is no cut. -/
theorem sameHits_of_length_le {n : Nat} (hn : C.chunks.length ≤ n) (queries : List String) :
    SameHits P P' n queries := by
  intro q _ e _
  rw [List.take_of_length_le ((P.perm e).length_eq.trans_le hn),
    List.take_of_length_le ((P'.perm e).length_eq.trans_le hn)]
  exact (P.perm e).trans (P'.perm e).symm

omit [DecidableEq φ] in
/-- Vector ties do not fall to Chroma's order. -/
theorem Corpus.Distinct.hits_eq (h : C.Distinct) {n : Nat} {e : ε}
    (hperm : ((P.ranking e).take n).Perm ((P'.ranking e).take n)) : P.hits n e = P'.hits n e := by
  apply sort_eq_of_perm _ hperm
  intro x hx y hy hkey
  have htie := congrArg (fun k : Rat ×ₗ String ×ₗ Nat ↦ (ofLex k).2) hkey
  apply h x ((P.perm e).mem_iff.mp (List.mem_of_mem_take hx)) y
    ((P.perm e).mem_iff.mp (List.mem_of_mem_take hy))
  · exact congrArg (fun k : String ×ₗ Nat ↦ (ofLex k).1) htie
  · exact congrArg (fun k : String ×ₗ Nat ↦ (ofLex k).2) htie

omit [DecidableEq φ] in
/-- The order of a project's full-text hits, without the ids. -/
theorem Project.pairwise_ftsOrder (P : Project C G) (q : String) :
    (P.ftsOrder q).Pairwise fun x y ↦ ftsKey C G q x ≤ ftsKey C G q y := by
  apply (pairwise_sort (fun x ↦ toLex (ftsKey C G q x, P.chunkId x)) (ftsMatches C G q)).imp
  intro x y hle
  rcases Prod.Lex.toLex_le_toLex.mp hle with hlt | ⟨heq, -⟩
  · exact hlt.le
  · exact le_of_eq heq

omit [DecidableEq φ] in
/-- Full-text ties do not fall to the ids. -/
theorem Corpus.Distinct.ftsOrder_eq (h : C.Distinct) (q : String) :
    P.ftsOrder q = P'.ftsOrder q := by
  apply eq_of_perm_of_pairwise_key _ (P.pairwise_ftsOrder q) (P'.pairwise_ftsOrder q)
  · exact (List.perm_insertionSort _ _).trans (List.perm_insertionSort _ _).symm
  · intro x hx y hy hkey
    have hrest := congrArg
      (fun k : Rat ×ₗ String ×ₗ Nat ×ₗ String ↦ (ofLex k).2) hkey
    apply h x (P.mem_of_mem_ftsOrder hx) y (P.mem_of_mem_ftsOrder hy)
    · exact G.collation_inj
        (congrArg (fun k : String ×ₗ Nat ×ₗ String ↦ (ofLex k).1) hrest)
    · exact congrArg (fun k : String ×ₗ Nat ×ₗ String ↦ (ofLex (ofLex k).2).1) hrest

/-- Ties of the fusion do not fall to the ids. -/
theorem Corpus.Distinct.fused_shown (h : C.Distinct) {acc : Acc} {s : Seen φ}
    (hfollows : P.Follows acc s) (hsound : s.Sound C) :
    (acc.fusedIds.filterMap fun i ↦ (acc.byId.lookup i).map shown) =
      (contentOrder rrfK (fun x ↦ tieOf (s.known x)) (s.vecLists ++ s.ftsLists)).filterMap
        s.known := by
  have hfused : acc.fusedIds =
      (contentOrder rrfK (fun x ↦ tieOf (s.known x)) (s.vecLists ++ s.ftsLists)).map
        P.chunkId := by
    rw [hfollows.fusedIds_eq]
    apply rrfFuse_map P.chunkId_injective
    · intro x _
      rw [hfollows.table x]
    · intro x hx y hy htie
      obtain ⟨hxc, hxs⟩ := hsound.listed x hx
      obtain ⟨hyc, hys⟩ := hsound.listed y hy
      obtain ⟨v, hv⟩ := Option.isSome_iff_exists.mp hxs
      obtain ⟨w, hw⟩ := Option.isSome_iff_exists.mp hys
      obtain ⟨_, rfl⟩ := hsound.genuine x v hv
      obtain ⟨_, rfl⟩ := hsound.genuine y w hw
      rw [tieOf, tieOf, hv, hw] at htie
      have hkey := Option.some.inj htie
      apply h x hxc y hyc
      · exact congrArg (fun k : String ×ₗ Nat ↦ (ofLex k).1) hkey
      · exact congrArg (fun k : String ×ₗ Nat ↦ (ofLex k).2) hkey
  rw [hfused, List.filterMap_map]
  apply List.filterMap_congr
  intro x _
  exact hfollows.table x

/-- Two projects answer alike if their runs end in related states, and these are shown alike. -/
theorem answers_eq {S : Settings} {queries : List String} {topK : Option Nat}
    {R : Seen φ → Seen φ → Prop}
    (hrelated : Related R
      (seenRun C G (P.hits (fetchCount S (effectiveTopK S topK) none))
        (P.ftsHits S (effectiveTopK S topK)) queries)
      (seenRun C G (P'.hits (fetchCount S (effectiveTopK S topK) none))
        (P'.ftsHits S (effectiveTopK S topK)) queries))
    (hshown : ∀ acc acc' s s', P.Follows acc s → P'.Follows acc' s' → s.Sound C → s'.Sound C →
      R s s' →
      (acc.fusedIds.filterMap fun i ↦ (acc.byId.lookup i).map shown).take (effectiveTopK S topK) =
        (acc'.fusedIds.filterMap fun i ↦ (acc'.byId.lookup i).map shown).take
          (effectiveTopK S topK)) :
    P.answer S queries topK = P'.answer S queries topK := by
  rcases hrelated with ⟨err, hseen, hseen'⟩ | ⟨s, s', hseen, hseen', hR⟩
  · rcases P.answer_eq S queries topK with ⟨_, hrun, hanswer⟩ | ⟨acc, _, hrun, -, -⟩
    · rcases P'.answer_eq S queries topK with ⟨_, hrun', hanswer'⟩ | ⟨acc', _, hrun', -, -⟩
      · cases hrun.symm.trans hseen
        cases hrun'.symm.trans hseen'
        rw [hanswer, hanswer']
      · cases hrun'.symm.trans hseen'
    · cases hrun.symm.trans hseen
  · rcases P.answer_eq S queries topK with ⟨_, hrun, -⟩ | ⟨acc, _, hrun, hfollows, hanswer⟩
    · cases hrun.symm.trans hseen
    · rcases P'.answer_eq S queries topK with
        ⟨_, hrun', -⟩ | ⟨acc', _, hrun', hfollows', hanswer'⟩
      · cases hrun'.symm.trans hseen'
      · cases hrun.symm.trans hseen
        cases hrun'.symm.trans hseen'
        rw [hanswer, hanswer', hshown acc acc' s s' hfollows hfollows'
          (seenRun_sound (fun _ _ ↦ P.mem_of_mem_hits) (fun _ _ ↦ P.mem_of_mem_ftsHits) hseen)
          (seenRun_sound (fun _ _ ↦ P'.mem_of_mem_hits) (fun _ _ ↦ P'.mem_of_mem_ftsHits) hseen')
          hR]

/-- Two projects with the files of a corpus whose chunks are told apart answer alike. -/
theorem Corpus.Distinct.answer_eq (h : C.Distinct) (S : Settings) (queries : List String)
    (topK : Option Nat)
    (hsame : SameHits P P' (fetchCount S (effectiveTopK S topK) none) queries) :
    P.answer S queries topK = P'.answer S queries topK := by
  have hseen : seenRun C G (P.hits (fetchCount S (effectiveTopK S topK) none))
        (P.ftsHits S (effectiveTopK S topK)) queries =
      seenRun C G (P'.hits (fetchCount S (effectiveTopK S topK) none))
        (P'.ftsHits S (effectiveTopK S topK)) queries := by
    apply seenRun_congr
    · intro q hq e he
      exact h.hits_eq (hsame q hq e he)
    · intro q _
      rw [Project.ftsHits, Project.ftsHits, h.ftsOrder_eq q]
  apply answers_eq (R := fun s s' ↦ s = s')
  · rw [← hseen]
    cases hrun : seenRun C G (P.hits (fetchCount S (effectiveTopK S topK) none))
        (P.ftsHits S (effectiveTopK S topK)) queries with
    | error err => exact .inl ⟨err, rfl, rfl⟩
    | ok s => exact .inr ⟨s, s, rfl, rfl, rfl⟩
  · rintro acc acc' s _ hfollows hfollows' hsound - rfl
    rw [h.fused_shown hfollows hsound, h.fused_shown hfollows' hsound]

end

end Adapta.Rag
