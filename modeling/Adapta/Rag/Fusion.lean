import Mathlib.Algebra.Order.BigOperators.Group.List
import Mathlib.Data.List.Dedup
import Mathlib.Tactic.GCongr
import Adapta.Lib.KeySort
import Adapta.Rag.Retrieve

/-!
# Rank fusion

What `_rrf_fuse` makes of its lists.  The score of an id is the sum of its shares in the lists
it occurs in (`rrfScore_eq`), so the order of the lists does not matter.  An id that is
nowhere worse placed than another one, and somewhere better, has a score that is greater by at
least `gap`, the difference of the shares of the last two admitted places (`gap_le`); this is
more than the rounding to 12 decimals takes away.
-/

namespace Adapta.Rag

open Lib

variable {ι κ : Type*} [LinearOrder ι] [LinearOrder κ]

/-! ## Scores -/

/-- What one list adds to the score of an id. -/
def share (k : Nat) (ranks : List ι) (i : ι) : Rat :=
  if i ∈ ranks then 1 / (k + ranks.idxOf i + 1) else 0

theorem sum_zipIdx {k n : Nat} {i : ι} {ranks : List ι} (h : ranks.Nodup) :
    ((((ranks.zipIdx n).map fun x ↦ (x.1, 1 / (k + x.2 + 1 : Rat))).filter
      fun x ↦ x.1 = i).map Prod.snd).sum =
        if i ∈ ranks then 1 / ((k : Rat) + (n + ranks.idxOf i) + 1) else 0 := by
  induction ranks generalizing n with
  | nil => simp
  | cons j ranks ih =>
      obtain ⟨hj, hranks⟩ := List.nodup_cons.mp h
      rw [List.zipIdx_cons, List.map_cons, List.filter_cons]
      by_cases hji : j = i
      · subst hji
        have hsum := ih (n := n + 1) hranks
        rw [if_neg hj] at hsum
        simp only [decide_true, if_true, List.map_cons, List.sum_cons, hsum, List.mem_cons,
          true_or, List.idxOf_cons_self]
        norm_num
      · have hij : ¬i = j := fun h ↦ hji h.symm
        simp only [hji, decide_false, Bool.false_eq_true, if_false, ih hranks, List.mem_cons, hij,
          false_or, List.idxOf_cons_ne ranks hji]
        congr 3
        push_cast
        ring

theorem rrfScore_singleton {k : Nat} {i : ι} {ranks : List ι} (h : ranks.Nodup) :
    rrfScore k [ranks] i = share k ranks i := by
  have hsum := sum_zipIdx (k := k) (n := 0) (i := i) h
  simp only [Nat.cast_zero, zero_add] at hsum
  rw [rrfScore, contributions, List.flatMap_singleton, hsum, share]

theorem rrfScore_cons (k : Nat) (ranks : List ι) (lists : List (List ι)) (i : ι) :
    rrfScore k (ranks :: lists) i = rrfScore k [ranks] i + rrfScore k lists i := by
  simp only [rrfScore, contributions, List.flatMap_cons, List.flatMap_nil, List.append_nil,
    List.filter_append, List.map_append, List.sum_append]

/-- The score of an id is the sum of its shares. -/
theorem rrfScore_eq {k : Nat} {lists : List (List ι)} (h : ∀ ranks ∈ lists, ranks.Nodup) (i : ι) :
    rrfScore k lists i = (lists.map fun ranks ↦ share k ranks i).sum := by
  induction lists with
  | nil => rfl
  | cons ranks lists ih =>
      rw [List.forall_mem_cons] at h
      rw [rrfScore_cons, rrfScore_singleton h.1, ih h.2, List.map_cons, List.sum_cons]

theorem rrfScore_perm {k : Nat} {lists lists' : List (List ι)} (h : lists.Perm lists') (i : ι) :
    rrfScore k lists i = rrfScore k lists' i :=
  (((h.flatMap_right _).filter _).map _).sum_eq

/-! ## The order -/

omit [LinearOrder κ] in
theorem rrfKey_inj {k : Nat} {tieKey : ι → WithBot κ} {lists : List (List ι)} {i j : ι}
    (h : rrfKey k tieKey lists i = rrfKey k tieKey lists j) : i = j :=
  congrArg (fun x : Rat ×ₗ WithBot κ ×ₗ ι ↦ (ofLex (ofLex x).2).2) h

theorem mem_rrfFuse {k : Nat} {tieKey : ι → WithBot κ} {lists : List (List ι)} {i : ι} :
    i ∈ rrfFuse k tieKey lists ↔ ∃ ranks ∈ lists, i ∈ ranks := by
  rw [rrfFuse, List.mem_insertionSort, List.mem_dedup, List.mem_flatten]

/-- Lists with the same ids and the same scores are fused to the same list. -/
theorem rrfFuse_congr {k : Nat} {tieKey : ι → WithBot κ} {lists lists' : List (List ι)}
    (hmem : ∀ i, i ∈ lists.flatten ↔ i ∈ lists'.flatten)
    (hscore : ∀ i, rrfScore k lists i = rrfScore k lists' i) :
    rrfFuse k tieKey lists = rrfFuse k tieKey lists' := by
  have hkey : rrfKey k tieKey lists = rrfKey k tieKey lists' := by
    funext i
    rw [rrfKey, rrfKey, hscore]
  rw [rrfFuse, rrfFuse, hkey]
  apply sort_eq_of_perm (fun i _ j _ ↦ rrfKey_inj)
  rw [List.perm_ext_iff_of_nodup (List.nodup_dedup _) (List.nodup_dedup _)]
  intro i
  rw [List.mem_dedup, List.mem_dedup, hmem]

theorem rrfFuse_perm {k : Nat} {tieKey : ι → WithBot κ} {lists lists' : List (List ι)}
    (h : lists.Perm lists') : rrfFuse k tieKey lists = rrfFuse k tieKey lists' :=
  rrfFuse_congr (fun _ ↦ h.flatten.mem_iff) (rrfScore_perm h)

/-- A greater rounded score comes first. -/
theorem rrfKey_lt {k : Nat} {tieKey : ι → WithBot κ} {lists : List (List ι)} {i j : ι}
    (h : rrfScore k lists j + 1 / 10 ^ 12 < rrfScore k lists i) :
    rrfKey k tieKey lists i < rrfKey k tieKey lists j :=
  Prod.Lex.left _ _ (neg_lt_neg (roundTo_lt_roundTo h))

/-! ## Dominance -/

/-- The longest rank list. -/
def maxRanks : Nat := 100000

/-- The difference between the shares of the last two places. -/
def gap : Rat := 1 / ((rrfK + maxRanks - 1) * (rrfK + maxRanks))

theorem rounding_lt_gap : (1 : Rat) / 10 ^ 12 < gap := by
  norm_num [gap, rrfK, maxRanks]

/-- A better place makes a difference. -/
theorem gap_le {m n : Nat} (hlt : m < n) (hn : n < maxRanks) :
    1 / (rrfK + n + 1 : Rat) + gap ≤ 1 / (rrfK + m + 1 : Rat) := by
  have hmn : (m : Rat) + 1 ≤ n := by exact_mod_cast hlt
  have hmax : (n : Rat) + 1 ≤ maxRanks := by exact_mod_cast hn
  have hm : (0 : Rat) ≤ m := by positivity
  have hk : (0 : Rat) < rrfK := by norm_num [rrfK]
  have hstep : (1 : Rat) / (rrfK + n + 1) + 1 / ((rrfK + n) * (rrfK + n + 1)) =
      1 / (rrfK + n) := by
    field_simp
  have hgap : gap ≤ 1 / ((rrfK + n) * (rrfK + n + 1)) := by
    apply one_div_le_one_div_of_le
    · positivity
    · apply mul_le_mul
      all_goals linarith
  have hle : (1 : Rat) / (rrfK + n) ≤ 1 / (rrfK + m + 1) := by
    apply one_div_le_one_div_of_le
    all_goals linarith
  linarith

/-- A place makes a difference. -/
theorem gap_le_share {n : Nat} (hn : n < maxRanks) : gap ≤ 1 / (rrfK + n + 1 : Rat) := by
  have hmax : (n : Rat) + 1 ≤ maxRanks := by exact_mod_cast hn
  have hk : (rrfK : Rat) = 60 := by norm_num [rrfK]
  have hN : (maxRanks : Rat) = 100000 := by norm_num [maxRanks]
  rw [gap, hk, hN]
  rw [hN] at hmax
  apply one_div_le_one_div_of_le
  · positivity
  · linarith

theorem share_nonneg (k : Nat) (ranks : List ι) (i : ι) : 0 ≤ share k ranks i := by
  rw [share]
  split_ifs
  · positivity
  · exact le_rfl

/-- The share of an id that is not among the first `n`. -/
theorem share_le_of_le_idxOf {k n : Nat} {ranks : List ι} {i : ι} (h : n ≤ ranks.idxOf i) :
    share k ranks i ≤ 1 / (k + n + 1) := by
  rw [share]
  split_ifs
  · have hle : (n : Rat) ≤ ranks.idxOf i := by exact_mod_cast h
    gcongr
  · positivity

/-- `i` occurs in every list in which `j` occurs, nowhere worse placed, and is somewhere
better placed or in a further list. -/
structure Dominates (lists : List (List ι)) (i j : ι) : Prop where
  noWorse : ∀ ranks ∈ lists, j ∈ ranks → i ∈ ranks ∧ ranks.idxOf i ≤ ranks.idxOf j
  better : ∃ ranks ∈ lists, i ∈ ranks ∧ (j ∈ ranks → ranks.idxOf i < ranks.idxOf j)

theorem share_le {k : Nat} {ranks : List ι} {i j : ι}
    (h : j ∈ ranks → i ∈ ranks ∧ ranks.idxOf i ≤ ranks.idxOf j) :
    share k ranks j ≤ share k ranks i := by
  by_cases hj : j ∈ ranks
  · obtain ⟨hi, hle⟩ := h hj
    have hle : (ranks.idxOf i : Rat) ≤ ranks.idxOf j := by exact_mod_cast hle
    rw [share, share, if_pos hj, if_pos hi]
    gcongr
  · rw [share, if_neg hj]
    exact share_nonneg k ranks i

theorem share_add_gap_le {ranks : List ι} {i j : ι} (hlen : ranks.length ≤ maxRanks)
    (hi : i ∈ ranks) (h : j ∈ ranks → ranks.idxOf i < ranks.idxOf j) :
    share rrfK ranks j + gap ≤ share rrfK ranks i := by
  rw [share, share, if_pos hi]
  split_ifs with hj
  · exact gap_le (h hj) (lt_of_lt_of_le (List.idxOf_lt_length_of_mem hj) hlen)
  · rw [zero_add]
    exact gap_le_share (lt_of_lt_of_le (List.idxOf_lt_length_of_mem hi) hlen)

/-- A sum that is nowhere smaller and somewhere greater by `d` is greater by `d`. -/
theorem sum_add_le_sum {α : Type*} {f g : α → Rat} {d : Rat} {l : List α}
    (hle : ∀ x ∈ l, f x ≤ g x) (hd : ∃ x ∈ l, f x + d ≤ g x) :
    (l.map f).sum + d ≤ (l.map g).sum := by
  induction l with
  | nil => simp at hd
  | cons y l ih =>
      rw [List.forall_mem_cons] at hle
      rw [List.map_cons, List.map_cons, List.sum_cons, List.sum_cons]
      obtain ⟨x, hx, hxd⟩ := hd
      rcases List.mem_cons.mp hx with rfl | hx
      · have := List.sum_le_sum hle.2
        linarith
      · have := ih hle.2 ⟨x, hx, hxd⟩
        linarith [hle.1]

theorem Dominates.rrfScore_lt {lists : List (List ι)} {i j : ι} (h : Dominates lists i j)
    (hnodup : ∀ ranks ∈ lists, ranks.Nodup) (hlen : ∀ ranks ∈ lists, ranks.length ≤ maxRanks) :
    rrfScore rrfK lists j + 1 / 10 ^ 12 < rrfScore rrfK lists i := by
  obtain ⟨ranks, hr, hi, hlt⟩ := h.better
  have hsum : rrfScore rrfK lists j + gap ≤ rrfScore rrfK lists i := by
    rw [rrfScore_eq hnodup, rrfScore_eq hnodup]
    apply sum_add_le_sum (fun ranks hr ↦ share_le (h.noWorse ranks hr))
    exact ⟨ranks, hr, share_add_gap_le (hlen ranks hr) hi hlt⟩
  have := rounding_lt_gap
  linarith

theorem rrfFuse_singleton {tieKey : ι → WithBot κ} {ranks : List ι} (hnodup : ranks.Nodup)
    (hlen : ranks.length ≤ maxRanks) : rrfFuse rrfK tieKey [ranks] = ranks := by
  rw [rrfFuse, List.flatten_singleton, hnodup.dedup]
  apply List.Pairwise.insertionSort_eq
  rw [List.pairwise_iff_getElem]
  intro m n hm hn hlt
  have hidx : ranks.idxOf ranks[m] < ranks.idxOf ranks[n] := by
    rw [hnodup.idxOf_getElem, hnodup.idxOf_getElem]
    exact hlt
  have hdom : Dominates [ranks] ranks[m] ranks[n] := by
    constructor
    · intro ranks' hr _
      rw [List.mem_singleton.mp hr]
      exact ⟨List.getElem_mem hm, le_of_lt hidx⟩
    · exact ⟨ranks, List.mem_singleton_self _, List.getElem_mem hm, fun _ ↦ hidx⟩
  exact le_of_lt (rrfKey_lt (hdom.rrfScore_lt (by simpa using hnodup) (by simpa using hlen)))

/-- Rank fusion returns each id of the lists once, regardless of the order of the lists; it
leaves a single list as it is, and puts what dominates first. -/
theorem rrfFuse_lawful (tieKey : ι → WithBot κ) (lists : List (List ι))
    (hnodup : ∀ ranks ∈ lists, ranks.Nodup) (hlen : ∀ ranks ∈ lists, ranks.length ≤ 100000) :
    (rrfFuse rrfK tieKey lists).Nodup ∧
    (∀ i, i ∈ rrfFuse rrfK tieKey lists ↔ ∃ ranks ∈ lists, i ∈ ranks) ∧
    (∀ lists', lists.Perm lists' → rrfFuse rrfK tieKey lists' = rrfFuse rrfK tieKey lists) ∧
    (∀ ranks, lists = [ranks] → rrfFuse rrfK tieKey lists = ranks) ∧
    ∀ i j, (∀ ranks ∈ lists, j ∈ ranks → i ∈ ranks ∧ ranks.idxOf i ≤ ranks.idxOf j) →
      ((∃ ranks ∈ lists, j ∈ ranks ∧ ranks.idxOf i < ranks.idxOf j) ∨
        ∃ ranks ∈ lists, i ∈ ranks ∧ j ∉ ranks) →
      (rrfFuse rrfK tieKey lists).idxOf i < (rrfFuse rrfK tieKey lists).idxOf j := by
  refine ⟨?_, fun _ ↦ mem_rrfFuse, fun _ h ↦ (rrfFuse_perm h).symm, ?_, ?_⟩
  · exact (List.perm_insertionSort _ _).nodup_iff.mpr (List.nodup_dedup _)
  · rintro ranks rfl
    exact rrfFuse_singleton (hnodup ranks (List.mem_singleton_self _))
      (hlen ranks (List.mem_singleton_self _))
  · intro i j hle hbetter
    have hdom : Dominates lists i j := by
      refine ⟨hle, ?_⟩
      rcases hbetter with ⟨ranks, hr, hj, hlt⟩ | ⟨ranks, hr, hi, hj⟩
      · exact ⟨ranks, hr, (hle ranks hr hj).1, fun _ ↦ hlt⟩
      · exact ⟨ranks, hr, hi, fun h ↦ absurd h hj⟩
    obtain ⟨ranks, hr, hi, -⟩ := hdom.better
    apply idxOf_sort_lt _ (rrfKey_lt (hdom.rrfScore_lt hnodup hlen))
    rw [List.mem_dedup, List.mem_flatten]
    exact ⟨ranks, hr, hi⟩

/-- Two lists over three ids. -/
theorem rrfFuse_lawful_pair :
    (rrfFuse rrfK (fun _ ↦ (⊥ : WithBot Nat)) [[1, 2], [2, 1, 3]]).idxOf 1 <
      (rrfFuse rrfK (fun _ ↦ (⊥ : WithBot Nat)) [[1, 2], [2, 1, 3]]).idxOf 3 := by
  refine (rrfFuse_lawful (fun _ ↦ (⊥ : WithBot Nat)) [[1, 2], [2, 1, 3]] ?_ ?_).2.2.2.2 1 3 ?_ ?_
  all_goals decide

end Adapta.Rag
