import Adapta.Lib.Greedy
import Adapta.Datasets.Synthesis

/-!
# What a synthesis keeps

Both filters of `synthesize_from_chunks`, the one for equal questions and the one for
questions that are near each other, are greedy selections, so at least the first item is kept.
-/

namespace Adapta.Datasets

open Lib

variable {c : Config} {mode : Mode} {system : Option Str} {outputs : List (Chunk × Option Str)}

/-- `dedup_exact` is a greedy selection by the normalised keys. -/
theorem dedupExact_eq_greedy {seen : List Str} {kept items : List (Str × Fields)}
    (h : ∀ k, k ∈ seen ↔ ∃ y ∈ kept, normWs c y.1 = k) :
    dedupExact c seen items =
      greedy (fun x y ↦ decide (normWs c x.1 = normWs c y.1)) kept items := by
  induction items generalizing seen kept with
  | nil => rfl
  | cons x items ih =>
      have hany : kept.any (fun y ↦ decide (normWs c x.1 = normWs c y.1)) =
          decide (normWs c x.1 ∈ seen) := by
        rw [Bool.eq_iff_iff, List.any_eq_true, decide_eq_true_eq, h]
        refine exists_congr fun y ↦ and_congr_right fun _ ↦ ?_
        rw [decide_eq_true_eq, eq_comm]
      rw [dedupExact, greedy, hany]
      by_cases hx : normWs c x.1 ∈ seen
      · rw [if_pos hx, if_pos (decide_eq_true hx)]
        exact ih h
      · rw [if_neg hx, if_neg (by simp [hx]), ih]
        intro k
        simp only [List.mem_cons, h, List.mem_append, List.not_mem_nil, or_false]
        constructor
        · rintro (rfl | ⟨y, hy, rfl⟩)
          · exact ⟨x, .inr rfl, rfl⟩
          · exact ⟨y, .inl hy, rfl⟩
        · rintro ⟨y, hy | rfl, rfl⟩
          · exact .inr ⟨y, hy, rfl⟩
          · exact .inl rfl

/-- So is what the mask selects, by the nearness of the keys. -/
theorem filter_zip_nearDuplicateMask {α β : Type} (above : α → α → Bool) (f : β → α)
    (kept l : List β) :
    ((l.zip (nearDuplicateMask above (kept.map f) (l.map f))).filter Prod.snd).map Prod.fst =
      greedy (fun x y ↦ above (f x) (f y)) kept l := by
  induction l generalizing kept with
  | nil => rfl
  | cons x l ih =>
      have hany : (kept.map f).any (above (f x)) = kept.any fun y ↦ above (f x) (f y) :=
        List.any_map
      rw [List.map_cons, nearDuplicateMask, greedy, hany]
      split
      · exact ih kept
      · have happend : kept.map f ++ [f x] = (kept ++ [x]).map f := by simp
        rw [happend, List.zip_cons_cons, List.filter_cons_of_pos rfl, List.map_cons, ih]

/-- The rows that are kept, by two greedy selections of all items. -/
theorem keptRows_eq :
    keptRows c mode system outputs =
      (greedy (fun x y ↦ c.near x.1 y.1) []
        (greedy (fun x y ↦ decide (normWs c x.1 = normWs c y.1)) []
          (allItems c mode system outputs))).map Prod.snd := by
  have hseen : ∀ k, k ∈ ([] : List Str) ↔ ∃ y ∈ ([] : List (Str × Fields)), normWs c y.1 = k := by
    simp
  rw [← dedupExact_eq_greedy hseen, ← filter_zip_nearDuplicateMask, List.map_map]
  rfl

/-- If there is an item, one is kept. -/
theorem keptRows_ne_nil (h : allItems c mode system outputs ≠ []) :
    keptRows c mode system outputs ≠ [] := by
  rw [keptRows_eq]
  exact List.map_eq_nil_iff.not.mpr (greedy_ne_nil (greedy_ne_nil h))

/-- A synthesis that returns had an item. -/
theorem allItems_ne_nil {embedded : Bool} {x : Str × Nat}
    (h : synthesizeFromChunks c mode system outputs embedded = .ok x) :
    allItems c mode system outputs ≠ [] := by
  intro hnil
  rw [synthesizeFromChunks, if_pos hnil] at h
  cases h

/-! ## Keyed rows

The two filters by themselves, on any keyed rows.  The vectors of the keys are an arbitrary
function of them, and so is the similarity of two vectors, with values in any linear order.
-/

section Keyed

variable {V S : Type} [LinearOrder S] (c : Config) (embed : Str → V) (similarity : V → V → S)
  (threshold : S)

/-- The rows that both filters of `synthesize_from_chunks` leave. -/
def keptItems (items : List (Str × Fields)) : List (Str × Fields) :=
  let items := dedupExact c [] items
  let vectors := items.map fun x ↦ embed x.1
  let mask := nearDuplicateMask (fun u v ↦ decide (threshold < similarity u v)) [] vectors
  ((items.zip mask).filter Prod.snd).map Prod.fst

/-- The keys of the rows are equal but for case and whitespace. -/
def SameKey (x y : Str × Fields) : Prop := normWs c x.1 = normWs c y.1

instance : DecidableRel (SameKey c) := fun _ _ ↦ inferInstanceAs (Decidable (_ = _))

/-- The similarity of the rows is above the threshold. -/
def Above (x y : Str × Fields) : Prop := threshold < similarity (embed x.1) (embed y.1)

instance : DecidableRel (Above embed similarity threshold) :=
  fun _ _ ↦ inferInstanceAs (Decidable (_ < _))

/-- A kept row accounts for a later one that is dropped: it has the same key, or it is too
similar to it or to an earlier row with its key. -/
def Accounts (front : List (Str × Fields)) (x y : Str × Fields) : Prop :=
  SameKey c x y ∨ Above embed similarity threshold x y ∨
    ∃ z ∈ front, SameKey c x z ∧ Above embed similarity threshold z y

variable {c embed similarity threshold}

theorem keptItems_eq (items : List (Str × Fields)) :
    keptItems c embed similarity threshold items =
      greedy (fun x y ↦ decide (Above embed similarity threshold x y)) []
        (greedy (fun x y ↦ decide (SameKey c x y)) [] items) := by
  have hseen : ∀ k, k ∈ ([] : List Str) ↔ ∃ y ∈ ([] : List (Str × Fields)), normWs c y.1 = k := by
    simp
  have hexact : dedupExact c [] items = greedy (fun x y ↦ decide (SameKey c x y)) [] items :=
    dedupExact_eq_greedy hseen
  have hmask := filter_zip_nearDuplicateMask
    (fun u v ↦ decide (threshold < similarity u v)) (fun x : Str × Fields ↦ embed x.1) []
    (dedupExact c [] items)
  rw [keptItems]
  exact hmask.trans (congrArg _ hexact)

/-- `keptRows` drops duplicates by these filters, from the items of all chunks. -/
theorem keptRows_eq_keptItems :
    keptRows c mode system outputs =
      (keptItems c id c.near false (allItems c mode system outputs)).map Prod.snd := by
  rw [keptRows_eq, keptItems_eq]
  congr 2
  funext x y
  cases hnear : c.near x.1 y.1 with
  | false => exact (decide_eq_false (by simp [Above, hnear])).symm
  | true => exact (decide_eq_true (by simp [Above, hnear])).symm

theorem keptItems_sublist (items : List (Str × Fields)) :
    (keptItems c embed similarity threshold items).Sublist items := by
  rw [keptItems_eq]
  exact (greedy_sublist _ _).trans (greedy_sublist _ _)

/-- No two kept rows are duplicates of each other. -/
theorem keptItems_pairwise (items : List (Str × Fields)) :
    (keptItems c embed similarity threshold items).Pairwise fun y x ↦
      ¬ SameKey c x y ∧ ¬ Above embed similarity threshold x y := by
  rw [keptItems_eq]
  have hexact := (greedy_pairwise (r := fun x y ↦ decide (SameKey c x y)) items).sublist
    (greedy_sublist (r := fun x y ↦ decide (Above embed similarity threshold x y)) [] _)
  have hnear := greedy_pairwise (r := fun x y ↦ decide (Above embed similarity threshold x y))
    (greedy (fun x y ↦ decide (SameKey c x y)) [] items)
  refine (hexact.and hnear).imp ?_
  rintro y x ⟨h, h'⟩
  exact ⟨by simpa using h, by simpa using h'⟩

theorem keptItems_append_isPrefix (front back : List (Str × Fields)) :
    keptItems c embed similarity threshold front <+:
      keptItems c embed similarity threshold (front ++ back) := by
  rw [keptItems_eq, keptItems_eq, greedy_append]
  exact greedy_append_isPrefix _ _

/-- A row is kept after those that were kept before it, or one of these accounts for it. -/
theorem keptItems_concat (front : List (Str × Fields)) (x : Str × Fields) :
    keptItems c embed similarity threshold (front ++ [x]) =
        keptItems c embed similarity threshold front ++ [x] ∨
      keptItems c embed similarity threshold (front ++ [x]) =
          keptItems c embed similarity threshold front ∧
        ∃ y ∈ keptItems c embed similarity threshold front,
          Accounts c embed similarity threshold front x y := by
  simp only [keptItems_eq]
  rw [greedy_concat]
  by_cases hexact : (greedy (fun x y ↦ decide (SameKey c x y)) [] front).any
      fun y ↦ decide (SameKey c x y)
  · rw [if_pos hexact]
    refine .inr ⟨rfl, ?_⟩
    obtain ⟨z, hz, hxz⟩ := List.any_eq_true.mp hexact
    have hxz : SameKey c x z := of_decide_eq_true hxz
    -- the first row with the key is kept, or too similar to a kept row
    rcases mem_greedy_or_clash hz with hkept | ⟨y, hy, hzy⟩
    · exact ⟨z, hkept, .inl hxz⟩
    · exact ⟨y, hy, .inr (.inr ⟨z, (greedy_sublist _ _).subset hz, hxz, of_decide_eq_true hzy⟩)⟩
  · rw [if_neg hexact, greedy_concat]
    split
    · next hnear =>
        obtain ⟨y, hy, hxy⟩ := List.any_eq_true.mp hnear
        exact .inr ⟨rfl, y, hy, .inr (.inl (of_decide_eq_true hxy))⟩
    · exact .inl rfl

/-- The two filters keep rows in their order, no two of them duplicates of each other, in
either order if the similarity is symmetric; each row that is dropped has a kept row before it
that accounts for it; the first row is kept; and the filters drop nothing from what they
have kept. -/
theorem keptItems_deduplicates (items : List (Str × Fields)) :
    (keptItems c embed similarity threshold items).Sublist items ∧
    ((keptItems c embed similarity threshold items).Pairwise fun y x ↦
      ¬ SameKey c x y ∧ ¬ Above embed similarity threshold x y ∧
        ((∀ u v, similarity u v = similarity v u) → ¬ Above embed similarity threshold y x)) ∧
    (∀ front x back, items = front ++ x :: back →
      keptItems c embed similarity threshold (front ++ [x]) <+:
          keptItems c embed similarity threshold items ∧
        (keptItems c embed similarity threshold (front ++ [x]) =
            keptItems c embed similarity threshold front ++ [x] ∨
          keptItems c embed similarity threshold (front ++ [x]) =
              keptItems c embed similarity threshold front ∧
            ∃ y ∈ keptItems c embed similarity threshold front,
              Accounts c embed similarity threshold front x y)) ∧
    (keptItems c embed similarity threshold items).head? = items.head? ∧
    keptItems c embed similarity threshold (keptItems c embed similarity threshold items) =
      keptItems c embed similarity threshold items := by
  have hpairwise : (keptItems c embed similarity threshold items).Pairwise fun y x ↦
      ¬ SameKey c x y ∧ ¬ Above embed similarity threshold x y := keptItems_pairwise items
  refine ⟨keptItems_sublist items, hpairwise.imp ?_, ?_, ?_, ?_⟩
  · intro y x h
    refine ⟨h.1, h.2, fun hsymm hyx ↦ h.2 ?_⟩
    rw [Above, hsymm]
    exact hyx
  · rintro front x back rfl
    refine ⟨?_, keptItems_concat front x⟩
    rw [List.append_cons front x back]
    exact keptItems_append_isPrefix _ _
  · rw [keptItems_eq]
    cases items with
    | nil => rfl
    | cons x items => rfl
  · have hexact : greedy (fun x y ↦ decide (SameKey c x y)) []
        (keptItems c embed similarity threshold items) =
          keptItems c embed similarity threshold items :=
      greedy_eq_self (hpairwise.imp fun h ↦ by simpa using h.1)
    rw [keptItems_eq (keptItems c embed similarity threshold items), hexact]
    exact greedy_eq_self (hpairwise.imp fun h ↦ by simpa using h.2)

end Keyed

end Adapta.Datasets
