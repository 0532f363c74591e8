import Mathlib.Data.List.Induction
import Mathlib.Data.List.Sort
import Mathlib.Order.WithBot
import Adapta.Lib.Double

/-!
# Histograms

The histograms of `adapta/core/metrics.py` keep the last thousand observations and compute
their series from these whenever they are exported.  A scraper reads the series as counters,
which never decrease.

## What is abstracted

* Observations and bounds are finite; a sum is a sum of doubles from the left.
* The bounds are distinct, as in every histogram of the collector (`nodup_collectorBuckets`).
* Of an exported text there are the values of the `_bucket`, `_count` and `_sum` lines, in
  their order; the bound `+Inf` is `⊤`.
-/

namespace Adapta.Metrics

open Lib

/-! ## The source -/

structure Histogram where
  buckets : List Rat
  nodup : buckets.Nodup
  observations : List Rat

/-- A `dict` of counts, in the order of its keys' insertion. -/
abbrev Counts := List (WithTop Rat × Nat)

/-- `counts[k] += 1`. -/
def bump (k : WithTop Rat) (counts : Counts) : Counts :=
  counts.map fun x ↦ if x.1 = k then (x.1, x.2 + 1) else x

def maxObservations : Nat := 1000

/-- The values of the exported lines. -/
structure Export where
  buckets : Counts
  count : Nat
  sum : Rat

namespace Histogram

variable (h : Histogram)

/-- A histogram as the collector makes it. -/
def fresh (buckets : List Rat) (nodup : buckets.Nodup) : Histogram := ⟨buckets, nodup, []⟩

def observe (value : Rat) : Histogram :=
  let observations := h.observations ++ [value]
  if observations.length > maxObservations then
    { h with observations := observations.drop (observations.length - maxObservations) }
  else { h with observations := observations }

def count : Nat := h.observations.length

def sum : Rat := h.observations.foldl (fun s x ↦ fl (s + x)) 0

/-- The body of the loop over the observations. -/
def countOne (buckets : List Rat) (counts : Counts) (obs : Rat) : Counts :=
  bump ⊤ (buckets.foldl (fun counts b ↦ if obs ≤ b then bump (b : WithTop Rat) counts else counts)
    counts)

def getBucketCounts : Counts :=
  h.observations.foldl (countOne h.buckets)
    (h.buckets.map (fun b : Rat ↦ ((b : WithTop Rat), 0)) ++ [(⊤, 0)])

/-- The lines of the histogram in an export; the items are sorted. -/
def exported : Export where
  buckets := h.getBucketCounts.insertionSort fun x y ↦ x.1 ≤ y.1
  count := h.count
  sum := h.sum

/-- A call of `observe`, or an export. -/
inductive Call where
  | observe (value : Rat)
  | scrape

def call : Histogram → Call → Histogram
  | h, .observe value => h.observe value
  | h, .scrape => h

/-- After some calls. -/
def after (calls : List Call) : Histogram := calls.foldl call h

end Histogram

open Histogram

/-- The observations of a run. -/
def observed (calls : List Call) : List Rat :=
  calls.filterMap fun
    | .observe value => some value
    | .scrape => none

/-! ## The counts -/

section Layout

variable {buckets : List Rat} {f : Rat → Nat} {m : Nat} {obs : Rat}

/-- The dict with the count `f b` at each bound and `m` at `+Inf`. -/
def layout (buckets : List Rat) (f : Rat → Nat) (m : Nat) : Counts :=
  buckets.map (fun b : Rat ↦ ((b : WithTop Rat), f b)) ++ [(⊤, m)]

theorem bump_coe (b : Rat) :
    bump b (layout buckets f m) =
      layout buckets (fun b' ↦ if b' = b then f b' + 1 else f b') m := by
  rw [bump, layout, List.map_append, List.map_map, layout]
  congr 1
  apply List.map_congr_left
  intro b' _
  simp only [Function.comp_apply, WithTop.coe_inj]
  split <;> rfl

theorem bump_top : bump ⊤ (layout buckets f m) = layout buckets f (m + 1) := by
  rw [bump, layout, List.map_append, List.map_map, layout]
  rfl

/-- The inner loop, over the bounds `l`. -/
theorem foldl_bump {l : List Rat} (hl : l.Nodup) :
    l.foldl (fun counts b ↦ if obs ≤ b then bump (b : WithTop Rat) counts else counts)
        (layout buckets f m) =
      layout buckets (fun b ↦ if b ∈ l ∧ obs ≤ b then f b + 1 else f b) m := by
  induction l using List.reverseRecOn with
  | nil => simp
  | append_singleton l b ih =>
      obtain ⟨hl, -, hb⟩ := List.nodup_append.mp hl
      have hnew : b ∉ l := fun hmem ↦ hb b hmem b (List.mem_singleton_self b) rfl
      rw [List.foldl_concat, ih hl]
      by_cases hle : obs ≤ b
      · rw [if_pos hle, bump_coe]
        congr 1
        funext b'
        by_cases heq : b' = b
        · subst heq
          simp [hnew, hle]
        · simp [heq]
      · rw [if_neg hle]
        congr 1
        funext b'
        by_cases heq : b' = b
        · subst heq
          simp [hle]
        · simp [heq]

theorem countOne_layout (hb : buckets.Nodup) :
    countOne buckets (layout buckets f m) obs =
      layout buckets (fun b ↦ f b + if obs ≤ b then 1 else 0) (m + 1) := by
  rw [countOne, foldl_bump hb, bump_top, layout, layout]
  congr 1
  apply List.map_congr_left
  intro b hmem
  by_cases hle : obs ≤ b
  · simp [hmem, hle]
  · simp [hle]

/-- The loops count, for each bound, the observations up to it. -/
theorem foldl_countOne (hb : buckets.Nodup) (l : List Rat) :
    l.foldl (countOne buckets) (layout buckets f m) =
      layout buckets (fun b ↦ f b + l.countP (· ≤ b)) (m + l.length) := by
  induction l generalizing f m with
  | nil => rfl
  | cons x l ih =>
      rw [List.foldl_cons, countOne_layout hb, ih]
      congr 1
      · funext b
        by_cases hle : x ≤ b
        · simp [hle]
          omega
        · simp [hle]
      · rw [List.length_cons]
        omega

end Layout

namespace Histogram

variable {h h' : Histogram}

/-- The observations up to a bound. -/
def countAt (h : Histogram) (k : WithTop Rat) : Nat :=
  h.observations.countP fun x : Rat ↦ decide ((x : WithTop Rat) ≤ k)

theorem getBucketCounts_eq :
    h.getBucketCounts = layout h.buckets (fun b ↦ h.countAt b) (h.countAt ⊤) := by
  have hloop := foldl_countOne (f := fun _ ↦ 0) (m := 0) h.nodup h.observations
  have htop : h.countAt ⊤ = h.observations.length := by simp [countAt]
  rw [getBucketCounts, htop]
  refine hloop.trans ?_
  simp [countAt]

theorem mem_getBucketCounts {x : WithTop Rat × Nat} (hx : x ∈ h.getBucketCounts) :
    x.2 = h.countAt x.1 := by
  rw [getBucketCounts_eq, layout, List.mem_append, List.mem_map, List.mem_singleton] at hx
  rcases hx with ⟨b, -, rfl⟩ | rfl
  · rfl
  · rfl

theorem countAt_mono {k k' : WithTop Rat} (hk : k ≤ k') : h.countAt k ≤ h.countAt k' := by
  apply List.countP_mono_left
  intro x _ hx
  exact decide_eq_true ((of_decide_eq_true hx).trans hk)

/-- More observations, larger counts. -/
theorem countAt_le (hsub : h.observations.Sublist h'.observations) (k : WithTop Rat) :
    h.countAt k ≤ h'.countAt k := hsub.countP_le

theorem countAt_top : h.countAt ⊤ = h.count := by simp [countAt, count]

theorem mem_exported {x : WithTop Rat × Nat} :
    x ∈ h.exported.buckets ↔ x ∈ h.getBucketCounts := List.mem_insertionSort _

theorem top_mem_exported : ((⊤ : WithTop Rat), h.exported.count) ∈ h.exported.buckets := by
  rw [mem_exported, getBucketCounts_eq, countAt_top]
  exact List.mem_append_right _ (List.mem_singleton_self _)

/-- The exported bounds are in ascending order. -/
theorem exported_sorted : h.exported.buckets.Pairwise fun x y ↦ x.1 < y.1 := by
  have hsorted := List.pairwise_insertionSort
    (fun x y : WithTop Rat × Nat ↦ x.1 ≤ y.1) h.getBucketCounts
  have hnodup : (h.getBucketCounts.map Prod.fst).Nodup := by
    rw [getBucketCounts_eq, layout, List.map_append, List.map_map]
    refine List.nodup_append.mpr ⟨?_, List.nodup_singleton _, ?_⟩
    · exact h.nodup.map fun b b' heq ↦ WithTop.coe_inj.mp heq
    · rintro k hk k' hk' rfl
      obtain ⟨b, -, rfl⟩ := List.mem_map.mp hk
      simp at hk'
  have hperm := (List.perm_insertionSort (fun x y : WithTop Rat × Nat ↦ x.1 ≤ y.1)
    h.getBucketCounts).map Prod.fst
  have hdistinct := List.pairwise_map.mp (hperm.nodup_iff.mpr hnodup)
  exact (hsorted.and hdistinct).imp fun hxy ↦ lt_of_le_of_ne hxy.1 hxy.2

end Histogram

/-! ## Runs -/

section Runs

variable {buckets : List Rat} {nodup : buckets.Nodup} {calls before : List Call}

theorem observed_append (l₁ l₂ : List Call) : observed (l₁ ++ l₂) = observed l₁ ++ observed l₂ :=
  List.filterMap_append

/-- One observation more, and the oldest goes if there are too many. -/
theorem observations_observe {h : Histogram} {xs : List Rat}
    (hlast : h.observations = xs.drop (xs.length - maxObservations)) (x : Rat) :
    (h.observe x).observations = (xs ++ [x]).drop ((xs ++ [x]).length - maxObservations) := by
  have hlen : h.observations.length = min xs.length maxObservations := by
    rw [hlast, List.length_drop]
    omega
  simp only [Histogram.observe, List.length_append, List.length_singleton, hlen]
  by_cases hfull : maxObservations ≤ xs.length
  · have hmin : min xs.length maxObservations = maxObservations := min_eq_right hfull
    have hone : maxObservations + 1 - maxObservations = 1 := Nat.add_sub_cancel_left _ _
    have hnext : xs.length + 1 - maxObservations = xs.length - maxObservations + 1 := by omega
    rw [hmin, if_pos (Nat.lt_succ_self _), hone, hnext, hlast, ← List.drop_drop,
      List.drop_append_of_le_length (Nat.sub_le _ _)]
  · have hzero : xs.length - maxObservations = 0 := by omega
    have hnext : xs.length + 1 - maxObservations = 0 := by omega
    rw [if_neg (by omega), hlast, hzero, hnext]
    rfl

/-- A run keeps the last observations. -/
theorem observations_after (calls : List Call) :
    ((fresh buckets nodup).after calls).observations =
      (observed calls).drop ((observed calls).length - maxObservations) := by
  induction calls using List.reverseRecOn with
  | nil => rfl
  | append_singleton calls c ih =>
      have hstep : (fresh buckets nodup).after (calls ++ [c]) =
          ((fresh buckets nodup).after calls).call c := List.foldl_concat _ _ _ _
      rw [hstep, observed_append]
      cases c with
      | observe x => exact observations_observe ih x
      | scrape =>
          have hnone : observed [.scrape] = [] := rfl
          rw [hnone, List.append_nil]
          exact ih

theorem count_after (calls : List Call) :
    ((fresh buckets nodup).after calls).count = min (observed calls).length maxObservations := by
  rw [count, observations_after, List.length_drop]
  omega

/-- A sum of doubles does not decrease when it goes on over non-negative numbers. -/
theorem le_foldl_add {l : List Rat} (hl : ∀ x ∈ l, 0 ≤ x) {s : Rat} (hs : fl s = s) :
    s ≤ l.foldl (fun s x ↦ fl (s + x)) s := by
  induction l generalizing s with
  | nil => exact le_rfl
  | cons x l ih =>
      have hx := hl x List.mem_cons_self
      calc s = fl s := hs.symm
        _ ≤ fl (s + x) := fl_mono (le_add_of_nonneg_right hx)
        _ ≤ l.foldl (fun s x ↦ fl (s + x)) (fl (s + x)) :=
            ih (fun y hy ↦ hl y (List.mem_cons_of_mem _ hy)) (fl_fl _)

theorem fl_foldl_add (l : List Rat) {s : Rat} (hs : fl s = s) :
    fl (l.foldl (fun s x ↦ fl (s + x)) s) = l.foldl (fun s x ↦ fl (s + x)) s := by
  induction l generalizing s with
  | nil => exact hs
  | cons x l ih => exact ih (fl_fl _)

/-! ## What a scraper relies on -/

/-- An export after `n` observations. -/
structure Export.Consistent (e : Export) (n : Nat) : Prop where
  count_eq : e.count = n
  inf_eq : ((⊤ : WithTop Rat), e.count) ∈ e.buckets
  ascending : e.buckets.Pairwise fun x y ↦ x.1 < y.1 ∧ x.2 ≤ y.2

/-- No series decreases from an export to a later one; the sum need not grow if there are
negative observations. -/
structure Export.Le (e e' : Export) (nonneg : Prop) : Prop where
  count_le : e.count ≤ e'.count
  bucket_le : ∀ k c c', (k, c) ∈ e.buckets → (k, c') ∈ e'.buckets → c ≤ c'
  sum_le : nonneg → e.sum ≤ e'.sum

/-- What holds of all the exports of a run. -/
structure ExportsMonotone (buckets : List Rat) (nodup : buckets.Nodup) (calls : List Call) :
    Prop where
  consistent : ∀ before, before ++ [.scrape] <+: calls →
    ((fresh buckets nodup).after before).exported.Consistent (observed before).length
  le : ∀ before before', before ++ [.scrape] <+: before' → before' ++ [.scrape] <+: calls →
    ((fresh buckets nodup).after before).exported.Le
      ((fresh buckets nodup).after before').exported (∀ x ∈ observed before', 0 ≤ x)

theorem exported_consistent (h : Histogram) : h.exported.Consistent h.count where
  count_eq := rfl
  inf_eq := top_mem_exported
  ascending := by
    refine exported_sorted.imp_of_mem fun {x y} hx hy hlt ↦ ⟨hlt, ?_⟩
    rw [mem_getBucketCounts (mem_exported.mp hx), mem_getBucketCounts (mem_exported.mp hy)]
    exact countAt_mono hlt.le

theorem exported_le {h h' : Histogram} (hfront : h.observations <+: h'.observations)
    {nonneg : Prop} (hnonneg : nonneg → ∀ x ∈ h'.observations, 0 ≤ x) :
    h.exported.Le h'.exported nonneg where
  count_le := hfront.length_le
  bucket_le := by
    intro k c c' hc hc'
    have hc := mem_getBucketCounts (mem_exported.mp hc)
    have hc' := mem_getBucketCounts (mem_exported.mp hc')
    exact hc.le.trans ((countAt_le hfront.sublist k).trans hc'.ge)
  sum_le := by
    intro hall
    obtain ⟨rest, hrest⟩ := hfront
    have hpos := hnonneg hall
    show h.sum ≤ h'.sum
    rw [Histogram.sum, Histogram.sum, ← hrest, List.foldl_append]
    refine le_foldl_add (fun x hx ↦ hpos x ?_) (fl_foldl_add _ fl_zero)
    rw [← hrest]
    exact List.mem_append_right _ hx

/-- The exports of a run are as a scraper expects exactly when none comes after more than a
thousand observations. -/
theorem exportsMonotone_iff (nodup : buckets.Nodup) (calls : List Call) :
    ExportsMonotone buckets nodup calls ↔
      ∀ before, before ++ [.scrape] <+: calls → (observed before).length ≤ maxObservations := by
  constructor
  · intro hmono before hbefore
    have hcount := (hmono.consistent before hbefore).count_eq
    have hmin : ((fresh buckets nodup).after before).exported.count =
        min (observed before).length maxObservations := count_after before
    omega
  · intro hfew
    -- nothing has been dropped yet
    have hall : ∀ before, before ++ [.scrape] <+: calls →
        ((fresh buckets nodup).after before).observations = observed before := by
      intro before hbefore
      have hle := hfew before hbefore
      rw [observations_after, Nat.sub_eq_zero_of_le hle, List.drop_zero]
    constructor
    · intro before hbefore
      have hcount : ((fresh buckets nodup).after before).count = (observed before).length :=
        congrArg List.length (hall before hbefore)
      rw [← hcount]
      exact exported_consistent _
    · intro before before' hfront hbefore'
      have hbefore : before ++ [.scrape] <+: calls :=
        hfront.trans ((List.prefix_append _ _).trans hbefore')
      apply exported_le
      · rw [hall before hbefore, hall before' hbefore']
        obtain ⟨rest, rfl⟩ := hfront
        rw [observed_append, observed_append, List.append_assoc]
        exact List.prefix_append _ _
      · rw [hall before' hbefore']
        exact id

end Runs

/-- The default bounds. -/
def defaultBuckets : List Rat :=
  [5 / 1000, 1 / 100, 25 / 1000, 5 / 100, 1 / 10, 25 / 100, 5 / 10, 1, 25 / 10, 5, 10].map fl

/-- The bounds of `rag_chunks_returned`. -/
def chunksReturnedBuckets : List Rat := [0, 1, 2, 3, 5, 8, 10, 15, 20]

/-- The bounds of `index_seconds_per_page`. -/
def secondsPerPageBuckets : List Rat :=
  [1 / 100, 5 / 100, 1 / 10, 25 / 100, 5 / 10, 1, 25 / 10, 5, 10, 30, 60].map fl

/-- The bounds of the histograms of `MetricsCollector`. -/
def collectorBuckets : List (List Rat) :=
  [defaultBuckets, chunksReturnedBuckets, secondsPerPageBuckets]

theorem nodup_collectorBuckets : ∀ buckets ∈ collectorBuckets, buckets.Nodup := by
  simp only [collectorBuckets, List.forall_mem_cons]
  refine ⟨?_, ?_, ?_, by simp⟩
  · with_unfolding_all decide
  · decide
  · with_unfolding_all decide

theorem nodup_defaultBuckets : defaultBuckets.Nodup :=
  nodup_collectorBuckets _ List.mem_cons_self

/-- Two requests with an export after each. -/
theorem exportsMonotone_two :
    ExportsMonotone defaultBuckets nodup_defaultBuckets
      [.observe (1 / 2), .scrape, .observe 3, .scrape] := by
  refine (exportsMonotone_iff nodup_defaultBuckets _).mpr fun before hbefore ↦ ?_
  have hobserved : (observed before).length ≤ before.length := List.length_filterMap_le _ _
  have hlen := (List.prefix_append before [.scrape]).length_le.trans hbefore.length_le
  exact hobserved.trans (hlen.trans (by decide))

theorem observed_replicate (n : Nat) (x : Rat) :
    observed (List.replicate n (.observe x)) = List.replicate n x :=
  List.filterMap_replicate_of_some rfl

theorem buckets_after (h : Histogram) (calls : List Call) :
    (h.after calls).buckets = h.buckets := by
  induction calls generalizing h with
  | nil => rfl
  | cons c calls ih =>
      refine (ih (h.call c)).trans ?_
      cases c with
      | observe x =>
          rw [call, Histogram.observe]
          split
          · rfl
          · rfl
      | scrape => rfl

/-- The count at each bound is exported. -/
theorem countAt_mem_exported {h : Histogram} {b : Rat} (hb : b ∈ h.buckets) :
    ((b : WithTop Rat), h.countAt b) ∈ h.exported.buckets := by
  rw [mem_exported, getBucketCounts_eq]
  exact List.mem_append_left _ (List.mem_map.mpr ⟨b, hb, rfl⟩)

/-- After a thousand fast requests an export, after a slow one another: the slow one displaces
a fast one, so the count at the bound 10 falls from 1000 to 999. -/
theorem exports_fall :
    ¬ ∀ buckets nodup calls, ExportsMonotone buckets nodup calls := by
  intro hall
  obtain ⟨fast, hfast⟩ : ∃ fast, fast = List.replicate maxObservations (Call.observe 0) := ⟨_, rfl⟩
  have hnodup : ([10] : List Rat).Nodup := List.nodup_singleton 10
  have hmono := hall [10] hnodup (fast ++ [.scrape, .observe 100] ++ [.scrape])
  have hle := hmono.le fast (fast ++ [.scrape, .observe 100])
    ⟨[.observe 100], List.append_assoc _ _ _⟩ List.prefix_rfl
  have hobserved : observed fast = List.replicate maxObservations 0 := by
    rw [hfast, observed_replicate]
  have hslow : observed (fast ++ [.scrape, .observe 100]) =
      List.replicate maxObservations 0 ++ [100] := by
    rw [observed_append, hobserved]
    rfl
  have hmem : ∀ calls, (10 : Rat) ∈ ((fresh [10] hnodup).after calls).buckets := by
    intro calls
    rw [buckets_after]
    exact List.mem_singleton_self 10
  have hfall := hle.bucket_le _ _ _ (countAt_mem_exported (hmem _)) (countAt_mem_exported (hmem _))
  have hdrop : (List.replicate maxObservations (0 : Rat) ++ [100]).drop 1 =
      List.replicate 999 0 ++ [100] := rfl
  simp only [countAt, observations_after, hobserved, hslow, List.length_append,
    List.length_replicate, List.length_singleton, Nat.sub_self, List.drop_zero,
    Nat.add_sub_cancel_left, hdrop, List.countP_append, List.countP_replicate,
    WithTop.coe_le_coe] at hfall
  revert hfall
  decide

end Adapta.Metrics
