import Mathlib.Order.Bounds.Defs
import Adapta.Chat.Service
import Adapta.Rag.Sound

/-!
# Merging the hits of several queries

The loop of `retrieve` keeps one candidate for each chunk.  What it knows of a chunk is its
score and whether only the full-text leg returned it; each hit is a sighting that updates this
(`observe`).  A hit of the full-text leg leaves the score 0.0 as a placeholder, and a later
hit of the vector leg takes its place only if its cosine is greater than that.  So a chunk
whose cosines are all at most zero passes for a keyword-only hit when the full-text leg of an
earlier query returned it, and not when that query comes later.
-/

namespace Adapta.Rag

open Lib

/-! ## Sightings -/

/-- What is known of a chunk: its score, and whether it is a keyword-only hit. -/
abbrev Standing := Option (Rat × Bool)

/-- A hit of the vector leg has a cosine, one of the full-text leg has none. -/
def observe : Standing → Option Rat → Standing
  | none, some s => some (s, false)
  | none, none => some (0, true)
  | some v, some s => if v.1 < s then some (s, false) else some v
  | some v, none => some v

/-- The greatest of the cosines. -/
def Best (es : List (Option Rat)) (s : Rat) : Prop :=
  some s ∈ es ∧ ∀ t, some t ∈ es → t ≤ s

theorem foldl_observe_vector (es : List (Option Rat)) (s : Rat) :
    ∃ t, es.foldl observe (some (s, false)) = some (t, false) ∧ Best (some s :: es) t := by
  induction es generalizing s with
  | nil => exact ⟨s, rfl, by simp [Best]⟩
  | cons e es ih =>
      rw [List.foldl_cons]
      cases e with
      | none =>
          obtain ⟨t, ht, hmem, hle⟩ := ih s
          refine ⟨t, ht, ?_, ?_⟩
          · simpa using hmem
          · simpa using hle
      | some u =>
          by_cases hlt : s < u
          · obtain ⟨t, ht, hmem, hle⟩ := ih u
            refine ⟨t, by simpa [observe, hlt] using ht, List.mem_cons_of_mem _ hmem, ?_⟩
            intro v hv
            rcases List.mem_cons.mp hv with hv | hv
            · obtain rfl := Option.some.inj hv
              exact le_trans (le_of_lt hlt) (hle u List.mem_cons_self)
            · exact hle v hv
          · obtain ⟨t, ht, hmem, hle⟩ := ih s
            refine ⟨t, by simpa [observe, hlt] using ht, ?_, ?_⟩
            · rcases List.mem_cons.mp hmem with h | h
              · exact List.mem_cons.mpr (.inl h)
              · exact List.mem_cons_of_mem _ (List.mem_cons_of_mem _ h)
            · intro v hv
              rcases List.mem_cons.mp hv with hv | hv
              · exact hle v (List.mem_cons.mpr (.inl hv))
              · rcases List.mem_cons.mp hv with hv | hv
                · obtain rfl := Option.some.inj hv
                  exact le_trans (not_lt.mp hlt) (hle s List.mem_cons_self)
                · exact hle v (List.mem_cons_of_mem _ hv)

/-- The placeholder is not overwritten by a cosine of at most zero. -/
theorem foldl_observe_placeholder {es : List (Option Rat)} (h : ∀ s, some s ∈ es → s ≤ 0) :
    es.foldl observe (some (0, true)) = some (0, true) := by
  induction es with
  | nil => rfl
  | cons e es ih =>
      have hes := ih fun s hs ↦ h s (List.mem_cons_of_mem _ hs)
      rw [List.foldl_cons]
      cases e with
      | none => exact hes
      | some s =>
          have hs : ¬(0 : Rat) < s := not_lt.mpr (h s List.mem_cons_self)
          simpa [observe, hs] using hes

/-- It is by a positive one. -/
theorem foldl_observe_positive {es : List (Option Rat)} {s : Rat} (hs : some s ∈ es)
    (hpos : 0 < s) :
    ∃ t, es.foldl observe (some (0, true)) = some (t, false) ∧ Best es t := by
  induction es with
  | nil => cases hs
  | cons e es ih =>
      rw [List.foldl_cons]
      cases e with
      | none =>
          obtain ⟨t, ht, hmem, hle⟩ := ih (by simpa using hs)
          refine ⟨t, ht, List.mem_cons_of_mem _ hmem, ?_⟩
          simpa using hle
      | some u =>
          by_cases hu : 0 < u
          · simpa [observe, hu] using foldl_observe_vector es u
          · have hne : s ≠ u := fun h ↦ hu (h ▸ hpos)
            have hes : some s ∈ es := by simpa [hne] using hs
            obtain ⟨t, ht, hmem, hle⟩ := ih hes
            refine ⟨t, by simpa [observe, hu] using ht, List.mem_cons_of_mem _ hmem, ?_⟩
            intro v hv
            rcases List.mem_cons.mp hv with hv | hv
            · obtain rfl := Option.some.inj hv
              exact le_trans (not_lt.mp hu) (le_trans (le_of_lt hpos) (hle s hes))
            · exact hle v hv

/-- What should be known of a chunk after some sightings. -/
inductive Known (es : List (Option Rat)) : Standing → Prop where
  | unseen : es = [] → Known es none
  | keyword : es ≠ [] → (∀ s, some s ∉ es) → Known es (some (0, true))
  | vector {s : Rat} : Best es s → Known es (some (s, false))

/-- It depends only on which sightings there are. -/
theorem Known.unique {es es' : List (Option Rat)} {v v' : Standing} (h : Known es v)
    (h' : Known es' v') (hmem : ∀ e, e ∈ es ↔ e ∈ es') : v = v' := by
  have hnil : es = [] ↔ es' = [] := by
    rw [List.eq_nil_iff_forall_not_mem, List.eq_nil_iff_forall_not_mem]
    exact forall_congr' fun e ↦ not_congr (hmem e)
  cases h with
  | unseen hes =>
      cases h' with
      | unseen => rfl
      | keyword hne => exact absurd (hnil.mp hes) hne
      | vector hb =>
          rw [hnil.mp hes] at hb
          cases hb.1
  | keyword hne hno =>
      cases h' with
      | unseen hes => exact absurd (hnil.mpr hes) hne
      | keyword => rfl
      | vector hb => exact absurd ((hmem _).mpr hb.1) (hno _)
  | vector hb =>
      cases h' with
      | unseen hes =>
          rw [hnil.mpr hes] at hb
          cases hb.1
      | keyword hne hno => exact absurd ((hmem _).mp hb.1) (hno _)
      | vector hb' =>
          rw [le_antisymm (hb'.2 _ ((hmem _).mp hb.1)) (hb.2 _ ((hmem _).mpr hb'.1))]

/-- The loop knows what it should if some cosine is positive, or no sighting has one, or the
first sighting has one. -/
theorem known_of {es : List (Option Rat)}
    (h : (∃ s, some s ∈ es ∧ 0 < s) ∨ (∀ s, some s ∉ es) ∨ ∃ s rest, es = some s :: rest) :
    Known es (es.foldl observe none) := by
  cases es with
  | nil => exact .unseen rfl
  | cons e es =>
      rw [List.foldl_cons]
      cases e with
      | some s =>
          obtain ⟨t, ht, hbest⟩ := foldl_observe_vector es s
          rw [observe, ht]
          exact .vector hbest
      | none =>
          rw [observe]
          rcases h with ⟨s, hs, hpos⟩ | hno | ⟨s, rest, h⟩
          · have hs' : some s ∈ es := by simpa using hs
            obtain ⟨t, ht, hmem, hle⟩ := foldl_observe_positive hs' hpos
            rw [ht]
            exact .vector ⟨List.mem_cons_of_mem _ hmem, by simpa using hle⟩
          · rw [foldl_observe_placeholder fun s hs ↦ absurd (List.mem_cons_of_mem _ hs) (hno s)]
            exact .keyword (List.cons_ne_nil _ _) hno
          · cases h

/-! ## The loop -/

/-- The standing of a chunk among the candidates. -/
def standing (id : ChunkId) (byId : AList fun _ : ChunkId ↦ RetrievedChunk) : Standing :=
  (byId.lookup id).map fun c ↦ (c.score, c.lexicalOnly)

/-- The hits of the two legs of a query. -/
abbrev Legs := List (VectorRow × Rat) × List (ChunkRow × String)

/-- The sightings of a chunk in one query, the vector leg first. -/
def sightings (id : ChunkId) (l : Legs) : List (Option Rat) :=
  (l.1.filter fun x ↦ x.1.id = id).map (fun x ↦ some (1 - x.2)) ++
    (l.2.filter fun x ↦ x.1.id = id).map fun _ ↦ none

theorem standing_insert (id : ChunkId) (byId : AList fun _ : ChunkId ↦ RetrievedChunk)
    (c : RetrievedChunk) (id' : ChunkId) :
    standing id (byId.insert id' c) =
      if id' = id then some (c.score, c.lexicalOnly) else standing id byId := by
  by_cases h : id' = id
  · subst h
    simp [standing]
  · rw [if_neg h, standing, AList.lookup_insert_ne (Ne.symm h), standing]

theorem standing_addVector (id : ChunkId) (byId : AList fun _ : ChunkId ↦ RetrievedChunk)
    (x : VectorRow × Rat) :
    standing id (addVector byId x) =
      if x.1.id = id then observe (standing id byId) (some (1 - x.2)) else standing id byId := by
  rw [addVector]
  by_cases h : x.1.id = id
  · subst h
    rw [if_pos rfl]
    cases hl : byId.lookup x.1.id with
    | none => simp [standing, hl, observe, ofVector]
    | some prev =>
        by_cases hlt : prev.score < 1 - x.2
        · simp [standing, hl, observe, hlt, ofVector]
        · simp [standing, hl, observe, hlt]
  · rw [if_neg h]
    split
    · rw [standing_insert, if_neg h]
    · split
      · rw [standing_insert, if_neg h]
      · rfl

theorem standing_addFts (id : ChunkId) (byId : AList fun _ : ChunkId ↦ RetrievedChunk)
    (x : ChunkRow × String) :
    standing id (addFts byId x) =
      if x.1.id = id then observe (standing id byId) none else standing id byId := by
  rw [addFts]
  by_cases h : x.1.id = id
  · subst h
    rw [if_pos rfl]
    cases hl : byId.lookup x.1.id with
    | none => simp [standing, hl, observe, ofFts]
    | some prev => simp [standing, hl, observe]
  · rw [if_neg h]
    split
    · rw [standing_insert, if_neg h]
    · rfl

theorem standing_foldl_addVector (id : ChunkId) (xs : List (VectorRow × Rat))
    (byId : AList fun _ : ChunkId ↦ RetrievedChunk) :
    standing id (xs.foldl addVector byId) =
      ((xs.filter fun x ↦ x.1.id = id).map fun x ↦ some (1 - x.2)).foldl observe
        (standing id byId) := by
  induction xs generalizing byId with
  | nil => rfl
  | cons x xs ih =>
      rw [List.foldl_cons, ih, standing_addVector]
      by_cases h : x.1.id = id
      · rw [if_pos h, List.filter_cons_of_pos (by simpa using h), List.map_cons, List.foldl_cons]
      · rw [if_neg h, List.filter_cons_of_neg (by simpa using h)]

theorem standing_foldl_addFts (id : ChunkId) (xs : List (ChunkRow × String))
    (byId : AList fun _ : ChunkId ↦ RetrievedChunk) :
    standing id (xs.foldl addFts byId) =
      ((xs.filter fun x ↦ x.1.id = id).map fun _ ↦ none).foldl observe (standing id byId) := by
  induction xs generalizing byId with
  | nil => rfl
  | cons x xs ih =>
      rw [List.foldl_cons, ih, standing_addFts]
      by_cases h : x.1.id = id
      · rw [if_pos h, List.filter_cons_of_pos (by simpa using h), List.map_cons, List.foldl_cons]
      · rw [if_neg h, List.filter_cons_of_neg (by simpa using h)]

section

variable {ε : Type} (S : Settings) (w : World ε) (p : ProjectId) (c : Collection)
  (topK fetchK : Nat) (f : Option RetrievalFilters)

/-- What the legs of a query return. -/
def legsOf (q : String) : Legs :=
  ((vectorLeg w c fetchK f q).toOption.getD [], (ftsLeg S w p topK f q).toOption.getD [])

variable {S w p c topK fetchK f}

/-- A round of the loop takes the hits of the query's legs. -/
theorem addQuery_eq_ok {acc acc' : Acc} {q : String}
    (h : addQuery S w p c topK fetchK f acc q = .ok acc') (id : ChunkId) :
    standing id acc'.byId =
      (sightings id (legsOf S w p c topK fetchK f q)).foldl observe (standing id acc.byId) := by
  obtain ⟨vec, hvec, h⟩ := bind_eq_ok.mp h
  obtain ⟨fts, hfts, h⟩ := bind_eq_ok.mp h
  cases h
  rw [legsOf, hvec, hfts, sightings, List.foldl_append, ← standing_foldl_addVector,
    ← standing_foldl_addFts]
  rfl

/-- The loop takes the hits of all the queries. -/
theorem standing_of_queries {queries : List String} {acc acc' : Acc}
    (h : queries.foldlM (addQuery S w p c topK fetchK f) acc = .ok acc') (id : ChunkId) :
    standing id acc'.byId =
      (queries.flatMap fun q ↦ sightings id (legsOf S w p c topK fetchK f q)).foldl observe
        (standing id acc.byId) := by
  induction queries generalizing acc with
  | nil =>
      cases h
      rfl
  | cons q queries ih =>
      rw [List.foldlM_cons] at h
      obtain ⟨mid, hmid, h⟩ := bind_eq_ok.mp h
      rw [ih h, addQuery_eq_ok hmid, List.flatMap_cons, List.foldl_append]

/-- Whether the loop returns does not depend on the order of the queries. -/
theorem exists_queries_iff {queries : List String} {acc : Acc} :
    (∃ acc', queries.foldlM (addQuery S w p c topK fetchK f) acc = .ok acc') ↔
      ∀ q ∈ queries, (∃ vec, vectorLeg w c fetchK f q = .ok vec) ∧
        ∃ fts, ftsLeg S w p topK f q = .ok fts := by
  induction queries generalizing acc with
  | nil => simp [pure, Except.pure]
  | cons q queries ih =>
      rw [List.forall_mem_cons]
      constructor
      · rintro ⟨acc', h⟩
        rw [List.foldlM_cons] at h
        obtain ⟨mid, hmid, h⟩ := bind_eq_ok.mp h
        obtain ⟨vec, hvec, hmid⟩ := bind_eq_ok.mp hmid
        obtain ⟨fts, hfts, -⟩ := bind_eq_ok.mp hmid
        exact ⟨⟨⟨vec, hvec⟩, fts, hfts⟩, ih.mp ⟨acc', h⟩⟩
      · rintro ⟨⟨⟨vec, hvec⟩, fts, hfts⟩, hrest⟩
        obtain ⟨acc', h⟩ := ih.mpr hrest
        refine ⟨acc', ?_⟩
        rw [List.foldlM_cons]
        refine bind_eq_ok.mpr ⟨_, ?_, h⟩
        rw [addQuery, hvec, hfts]
        rfl

theorem some_mem_sightings {queries : List String} {id : ChunkId} {s : Rat} :
    some s ∈ queries.flatMap (fun q ↦ sightings id (legsOf S w p c topK fetchK f q)) ↔
      ∃ q ∈ queries, ∃ x ∈ (legsOf S w p c topK fetchK f q).1, x.1.id = id ∧ s = 1 - x.2 := by
  rw [List.mem_flatMap]
  refine exists_congr fun q ↦ and_congr_right fun _ ↦ ?_
  simp [sightings, and_assoc, eq_comm]

/-- The sightings of a query start with one of the vector leg, if there is one. -/
theorem sightings_eq_cons {id : ChunkId} {l : Legs} (h : ∃ x ∈ l.1, x.1.id = id) :
    ∃ s rest, sightings id l = some s :: rest := by
  obtain ⟨x, hx, hid⟩ := h
  cases hl : l.1.filter fun x ↦ x.1.id = id with
  | nil =>
      have := List.filter_eq_nil_iff.mp hl x hx
      simp [hid] at this
  | cons y ys => exact ⟨1 - y.2, _, by rw [sightings, hl, List.map_cons, List.cons_append]⟩

variable (S w p c topK fetchK f) in
/-- A chunk that some vector leg returned has a positive cosine, or every query whose
full-text leg returned it also has it in its vector leg. -/
def Unshadowed (queries : List String) : Prop :=
  ∀ id, (∃ q ∈ queries, ∃ x ∈ (legsOf S w p c topK fetchK f q).1, x.1.id = id) →
    (∃ q ∈ queries, ∃ x ∈ (legsOf S w p c topK fetchK f q).1, x.1.id = id ∧ x.2 < 1) ∨
      ∀ q ∈ queries, (∃ y ∈ (legsOf S w p c topK fetchK f q).2, y.1.id = id) →
        ∃ x ∈ (legsOf S w p c topK fetchK f q).1, x.1.id = id

theorem Unshadowed.perm {queries queries' : List String}
    (h : Unshadowed S w p c topK fetchK f queries) (hperm : queries.Perm queries') :
    Unshadowed S w p c topK fetchK f queries' := by
  intro id
  simpa only [hperm.mem_iff] using h id

theorem first_sighting {queries : List String} {id : ChunkId}
    (h : ∀ q ∈ queries, (∃ y ∈ (legsOf S w p c topK fetchK f q).2, y.1.id = id) →
      ∃ x ∈ (legsOf S w p c topK fetchK f q).1, x.1.id = id) :
    queries.flatMap (fun q ↦ sightings id (legsOf S w p c topK fetchK f q)) = [] ∨
      ∃ s rest, queries.flatMap (fun q ↦ sightings id (legsOf S w p c topK fetchK f q)) =
        some s :: rest := by
  induction queries with
  | nil => exact .inl rfl
  | cons q queries ih =>
      rw [List.forall_mem_cons] at h
      rw [List.flatMap_cons]
      by_cases hx : ∃ x ∈ (legsOf S w p c topK fetchK f q).1, x.1.id = id
      · obtain ⟨s, rest, hs⟩ := sightings_eq_cons hx
        exact .inr ⟨s, _, by rw [hs, List.cons_append]⟩
      · have hnil : sightings id (legsOf S w p c topK fetchK f q) = [] := by
          have hy := mt h.1 hx
          simp only [not_exists, not_and] at hx hy
          rw [sightings, List.filter_eq_nil_iff.mpr, List.filter_eq_nil_iff.mpr]
          · rfl
          · simpa using hy
          · simpa using hx
        rw [hnil, List.nil_append]
        exact ih h.2

/-- Then the loop knows of each chunk what it should. -/
theorem Unshadowed.known {queries : List String} {acc : Acc}
    (h : Unshadowed S w p c topK fetchK f queries)
    (hrun : queries.foldlM (addQuery S w p c topK fetchK f) .empty = .ok acc) (id : ChunkId) :
    Known (queries.flatMap fun q ↦ sightings id (legsOf S w p c topK fetchK f q))
      (standing id acc.byId) := by
  rw [standing_of_queries hrun]
  apply known_of
  by_cases hvec : ∃ q ∈ queries, ∃ x ∈ (legsOf S w p c topK fetchK f q).1, x.1.id = id
  · rcases h id hvec with ⟨q, hq, x, hx, hid, hlt⟩ | hboth
    · exact .inl ⟨1 - x.2, some_mem_sightings.mpr ⟨q, hq, x, hx, hid, rfl⟩, sub_pos.mpr hlt⟩
    · rcases first_sighting hboth with hnil | hcons
      · obtain ⟨q, hq, x, hx, hid⟩ := hvec
        have hmem := some_mem_sightings.mpr ⟨q, hq, x, hx, hid, rfl⟩
        rw [hnil] at hmem
        cases hmem
      · exact .inr (.inr hcons)
  · refine .inr (.inl fun s hs ↦ hvec ?_)
    obtain ⟨q, hq, x, hx, hid, -⟩ := some_mem_sightings.mp hs
    exact ⟨q, hq, x, hx, hid⟩

/-! ## The law of the merge -/

/-- The candidates that `apply_min_score` would drop. -/
def dropped (m : Rat) (acc : Acc) : Set ChunkId :=
  {id | ∃ r, acc.byId.lookup id = some r ∧
    r ∉ Chat.applyMinScore (acc.byId.entries.map Sigma.snd) m}

theorem dropped_eq (m : Rat) (acc : Acc) :
    dropped m acc = {id | ∃ s, standing id acc.byId = some (s, false) ∧ 0 < m ∧ s < m} := by
  ext id
  simp only [dropped, Set.mem_ofPred_eq, standing, Option.map_eq_some_iff]
  constructor
  · rintro ⟨r, hr, hdrop⟩
    have hmem : r ∈ acc.byId.entries.map Sigma.snd :=
      List.mem_map.mpr ⟨⟨id, r⟩, AList.mem_lookup_iff.mp hr, rfl⟩
    rw [Chat.applyMinScore] at hdrop
    split_ifs at hdrop with hm
    · exact absurd hmem hdrop
    · simp only [List.mem_filter, hmem, true_and, Bool.or_eq_true, decide_eq_true_eq,
        not_or, Bool.not_eq_true, not_le] at hdrop
      exact ⟨r.score, ⟨r, hr, Prod.ext rfl hdrop.1⟩, not_le.mp hm, hdrop.2⟩
  · rintro ⟨s, ⟨r, hr, heq⟩, hm, hlt⟩
    obtain ⟨rfl, hlex⟩ := Prod.mk.inj heq
    refine ⟨r, hr, ?_⟩
    rw [Chat.applyMinScore, if_neg (not_le.mpr hm), List.mem_filter, hlex]
    simpa using fun _ _ ↦ hlt

variable (S w p c topK fetchK f) in
/-- What the records kept for the chunks promise. -/
structure Merged (queries : List String) (acc : Acc) : Prop where
  /-- `lexical_only`: the vector leg never returned it. -/
  lexicalOnly : ∀ id r, acc.byId.lookup id = some r → (r.lexicalOnly = true ↔
    ¬∃ q ∈ queries, ∃ x ∈ (legsOf S w p c topK fetchK f q).1, x.1.id = id)
  /-- Otherwise a chunk keeps its best cosine score. -/
  score : ∀ id r, acc.byId.lookup id = some r →
    (∃ q ∈ queries, ∃ x ∈ (legsOf S w p c topK fetchK f q).1, x.1.id = id) →
    IsGreatest {s | ∃ q ∈ queries, ∃ x ∈ (legsOf S w p c topK fetchK f q).1,
      x.1.id = id ∧ s = 1 - x.2} r.score
  /-- The order of the queries does not matter. -/
  orderFree : ∀ queries', queries.Perm queries' → ∃ acc',
    queries'.foldlM (addQuery S w p c topK fetchK f) .empty = .ok acc' ∧
    (∀ id, standing id acc'.byId = standing id acc.byId) ∧
    ∀ m, dropped m acc' = dropped m acc

theorem exists_queries_of_perm {queries queries' : List String} {acc acc₀ : Acc}
    (hrun : queries.foldlM (addQuery S w p c topK fetchK f) acc₀ = .ok acc)
    (hperm : queries.Perm queries') :
    ∃ acc', queries'.foldlM (addQuery S w p c topK fetchK f) acc₀ = .ok acc' := by
  rw [exists_queries_iff]
  intro q hq
  exact exists_queries_iff.mp ⟨acc, hrun⟩ q (hperm.mem_iff.mpr hq)

theorem Unshadowed.merged {queries : List String} {acc : Acc}
    (h : Unshadowed S w p c topK fetchK f queries)
    (hrun : queries.foldlM (addQuery S w p c topK fetchK f) .empty = .ok acc) :
    Merged S w p c topK fetchK f queries acc where
  lexicalOnly id r hr := by
    have hknown := h.known hrun id
    rw [standing, hr, Option.map_some] at hknown
    generalize r.score = score, r.lexicalOnly = lex at hknown ⊢
    cases hknown with
    | keyword _ hno =>
        refine iff_of_true rfl ?_
        rintro ⟨q, hq, x, hx, hid⟩
        exact hno _ (some_mem_sightings.mpr ⟨q, hq, x, hx, hid, rfl⟩)
    | vector hbest =>
        obtain ⟨q, hq, x, hx, hid, -⟩ := some_mem_sightings.mp hbest.1
        exact iff_of_false Bool.false_ne_true fun hno ↦ hno ⟨q, hq, x, hx, hid⟩
  score id r hr hvec := by
    have hknown := h.known hrun id
    rw [standing, hr, Option.map_some] at hknown
    generalize r.score = score, r.lexicalOnly = lex at hknown ⊢
    cases hknown with
    | keyword _ hno =>
        obtain ⟨q, hq, x, hx, hid⟩ := hvec
        exact absurd (some_mem_sightings.mpr ⟨q, hq, x, hx, hid, rfl⟩) (hno _)
    | vector hbest =>
        refine ⟨some_mem_sightings.mp hbest.1, ?_⟩
        intro s hs
        exact hbest.2 s (some_mem_sightings.mpr hs)
  orderFree queries' hperm := by
    obtain ⟨acc', hrun'⟩ := exists_queries_of_perm hrun hperm
    have hstanding : ∀ id, standing id acc'.byId = standing id acc.byId := by
      intro id
      apply ((h.perm hperm).known hrun' id).unique (h.known hrun id)
      intro e
      simp only [List.mem_flatMap, hperm.mem_iff]
    refine ⟨acc', hrun', hstanding, ?_⟩
    intro m
    rw [dropped_eq, dropped_eq]
    simp only [hstanding]

/-- The records keep their promises for every order of the queries if and only if no
placeholder hides a cosine. -/
theorem merged_iff (S : Settings) (w : World ε) (p : ProjectId) (c : Collection)
    (topK fetchK : Nat) (f : Option RetrievalFilters) (queries : List String) (acc : Acc)
    (hrun : queries.foldlM (addQuery S w p c topK fetchK f) .empty = .ok acc) :
    Merged S w p c topK fetchK f queries acc ↔ Unshadowed S w p c topK fetchK f queries := by
  refine ⟨fun h ↦ ?_, fun h ↦ h.merged hrun⟩
  intro id hvec
  by_contra hno
  simp only [not_or, not_exists, not_and, not_lt, not_forall] at hno
  obtain ⟨hlow, q, hq, ⟨y, hy, hyid⟩, hqvec⟩ := hno
  -- the query whose full-text leg alone returned the chunk comes first
  have hperm : queries.Perm (q :: queries.erase q) := List.perm_cons_erase hq
  obtain ⟨acc', hrun', hsame, -⟩ := h.orderFree _ hperm
  have hplace : standing id acc'.byId = some (0, true) := by
    have hnil : (legsOf S w p c topK fetchK f q).1.filter (fun x ↦ x.1.id = id) = [] := by
      rw [List.filter_eq_nil_iff]
      simpa using hqvec
    have hy' : y ∈ (legsOf S w p c topK fetchK f q).2.filter fun x ↦ x.1.id = id := by
      simpa using ⟨hy, hyid⟩
    obtain ⟨z, zs, hz⟩ := List.exists_cons_of_ne_nil (List.ne_nil_of_mem hy')
    have hle : ∀ s, some s ∈ (q :: queries.erase q).flatMap
        (fun q ↦ sightings id (legsOf S w p c topK fetchK f q)) → s ≤ 0 := by
      intro s hs
      obtain ⟨q', hq', x, hx, hid, rfl⟩ := some_mem_sightings.mp hs
      exact sub_nonpos.mpr (hlow q' (hperm.mem_iff.mpr hq') x hx hid)
    rw [standing_of_queries hrun']
    rw [List.flatMap_cons, sightings, hnil, hz] at hle ⊢
    exact foldl_observe_placeholder fun s hs ↦ hle s (List.mem_cons_of_mem _ hs)
  rw [hsame, standing, Option.map_eq_some_iff] at hplace
  obtain ⟨r, hr, heq⟩ := hplace
  exact (h.lexicalOnly id r hr).mp (congrArg Prod.snd heq) hvec

end

/-! ## A run -/

def hiddenRows : List VectorRow :=
  [⟨"a_0", "a", some "a.md", some 0, "alpha"⟩, ⟨"b_0", "b", some "b.md", some 0, "beta"⟩,
    ⟨"c_0", "c", some "c.md", some 0, "gamma"⟩]

/-- Three chunks.  The full-text leg finds the first one for the query `word`, whose vector
leg ranks it last; to the other query it is the nearest of three remote ones. -/
def hidden : World Bool where
  chunks := [⟨"a_0", "p", "a", 0, "alpha", none, false, none, false, []⟩]
  filename file := some (file ++ ".md")
  clientError := none
  collection _ := .ok ⟨some "mini", hiddenRows⟩
  embedOne q := .ok (q = "word")
  nearest c e := .ok (if e then (c.vectors.drop 1 ++ c.vectors.take 1).map fun v ↦ (v, 1 / 2)
    else c.vectors.map fun v ↦ (v, 5 / 4))
  matching _ q := .ok (if q = "word" then
    [⟨"a_0", "p", "a", 0, "alpha", none, false, none, false, []⟩] else [])
  filterError _ := none
  provenanceError _ := none
  rerank := none
  sigmoid x := x
  header _ := ""
  nearest_mem c e l h x hx := by
    cases h
    split at hx
    · obtain ⟨v, hv, rfl⟩ := List.mem_map.mp hx
      rcases List.mem_append.mp hv with hv | hv
      · exact List.mem_of_mem_drop hv
      · exact List.mem_of_mem_take hv
    · obtain ⟨v, hv, rfl⟩ := List.mem_map.mp hx
      exact hv
  matching_mem p q l h r hr := by
    cases h
    split at hr
    · exact hr
    · cases hr

/-- The loop over two queries, with `top_k = 1`. -/
def hiddenRun (queries : List String) : Except Exc Acc :=
  queries.foldlM (addQuery ⟨5, 1, 1, "mini"⟩ hidden "p" ⟨some "mini", hiddenRows⟩ 1 2 none) .empty

/-- The cosine `-1/4` does not replace the placeholder of an earlier query, so the record is
that of a keyword-only hit, and `apply_min_score` drops it or not by the order of the queries. -/
theorem hidden_not_merged :
    (∃ acc, hiddenRun ["other", "word"] = .ok acc ∧
      standing "a_0" acc.byId = some (-1 / 4, false) ∧ "a_0" ∈ dropped (1 / 5) acc) ∧
    ∃ acc, hiddenRun ["word", "other"] = .ok acc ∧
      standing "a_0" acc.byId = some (0, true) ∧ "a_0" ∉ dropped (1 / 5) acc ∧
      ¬Merged ⟨5, 1, 1, "mini"⟩ hidden "p" ⟨some "mini", hiddenRows⟩ 1 2 none ["word", "other"]
        acc := by
  have hfirst : (hiddenRun ["other", "word"]).map (fun acc ↦ standing "a_0" acc.byId) =
      .ok (some (-1 / 4, false)) := by with_unfolding_all decide
  have hsecond : (hiddenRun ["word", "other"]).map (fun acc ↦ standing "a_0" acc.byId) =
      .ok (some (0, true)) := by with_unfolding_all decide
  obtain ⟨acc, hacc, hlow⟩ := map_eq_ok.mp hfirst
  obtain ⟨acc', hacc', hplace⟩ := map_eq_ok.mp hsecond
  refine ⟨⟨acc, hacc, hlow, ?_⟩, acc', hacc', hplace, ?_, ?_⟩
  · rw [dropped_eq]
    exact ⟨-1 / 4, hlow, by norm_num, by norm_num⟩
  · rw [dropped_eq]
    rintro ⟨s, hs, -⟩
    rw [hplace] at hs
    cases hs
  · intro h
    obtain ⟨r, hr, heq⟩ := Option.map_eq_some_iff.mp hplace
    apply (h.lexicalOnly _ r hr).mp (congrArg Prod.snd heq)
    with_unfolding_all decide

/-- The equivalence at that run. -/
theorem merged_iff_hidden :
    ∃ acc, hiddenRun ["word", "other"] = .ok acc ∧
      (Merged ⟨5, 1, 1, "mini"⟩ hidden "p" ⟨some "mini", hiddenRows⟩ 1 2 none ["word", "other"]
        acc ↔
      Unshadowed ⟨5, 1, 1, "mini"⟩ hidden "p" ⟨some "mini", hiddenRows⟩ 1 2 none
        ["word", "other"]) := by
  have hrun : (hiddenRun ["word", "other"]).map (fun acc ↦ standing "a_0" acc.byId) =
      .ok (some (0, true)) := by with_unfolding_all decide
  obtain ⟨acc, hacc, -⟩ := map_eq_ok.mp hrun
  exact ⟨acc, hacc, merged_iff _ hidden "p" _ 1 2 none ["word", "other"] acc hacc⟩

end Adapta.Rag
