import Adapta.Lib.Double
import Adapta.Golden.Runs

/-!
# One flipped question

The retrieval gate is to warn when more than one question's worth of recall was lost, and
never for a single question.  Whether it does depends on how recalls, medians and differences
are rounded, so the judgement is computed here in doubles, as the source does.

The definitions take the rounding of an operation as a parameter; with no rounding they are
those of the gate over the rationals.
-/

namespace Adapta.Golden

open Lib

/-! ## The judgement, rounded -/

section Rounded

variable (rnd : Rat → Rat)

/-- `statistics.median` of doubles. -/
def medianIn (l : List Rat) : Rat :=
  let sorted := l.insertionSort (· ≤ ·)
  let n := sorted.length
  if n % 2 = 1 then sorted.getD (n / 2) 0
  else rnd (rnd (sorted.getD (n / 2 - 1) 0 + sorted.getD (n / 2) 0) / 2)

/-- The recall of `summarize`. -/
def recallIn (rows : List Ranked) (k : Nat) : Rat :=
  if rows.length = 0 then 0 else rnd (rows.countP (Ranked.hit k) / rows.length)

/-- `judge`. -/
def judgeIn (recallAtK : Rat) (n : Nat) (previous : List Rat) : Option Rat × Option Rat × Bool :=
  let window := previous.take baselineRuns
  if window = [] ∨ n = 0 then (none, none, false)
  else
    let baseline := medianIn rnd window
    let delta := rnd (roundTo (rnd (recallAtK - baseline)) 4)
    let threshold := max (rnd regressionFloor) (rnd (1 / n))
    (some (rnd (roundTo baseline 4)), some delta,
      decide (-delta > rnd (threshold + rnd (1 / 10 ^ 9))))

/-- The recall that `process_run` stores. -/
def storedRecall (rows : List Ranked) : Rat := rnd (roundTo (recallIn rnd rows goldenK) 4)

/-- The columns that `process_run` assigns from the recall. -/
structure Scored where
  recallAtK : Rat
  baselineRecall : Option Rat
  delta : Option Rat
  regression : Bool

/-- The end of `process_run`: the run is judged against the recalls of earlier runs. -/
def scoreRun (rows : List Ranked) (previous : List Rat) : Scored :=
  let (baseline, delta, regression) := judgeIn rnd (recallIn rnd rows goldenK) rows.length previous
  { recallAtK := storedRecall rnd rows
    baselineRecall := baseline
    delta := delta
    regression := regression }

end Rounded

theorem medianIn_id (l : List Rat) : medianIn id l = median l := rfl

/-! ## Runs -/

/-- The number of questions of a run that were answered. -/
def hits (rows : List Ranked) : Nat := rows.countP (Ranked.hit goldenK)

/-- The runs a new one is compared with, of a history that is newest first. -/
def compared (history : List (List Ranked)) : List (List Ranked) := history.take baselineRuns

/-- The median of their hits. -/
def medianHits (history : List (List Ranked)) : Rat :=
  median ((compared history).map fun rows ↦ (hits rows : Rat))

/-- The stored recall, as a number of ten-thousandths. -/
def recallDecimals (rows : List Ranked) : Int :=
  roundHalfEven (recallIn fl rows goldenK * 10 ^ 4)

/-- The median of the stored recalls, in the same unit. -/
def medianDecimals (history : List (List Ranked)) : Rat :=
  median ((compared history).map fun rows ↦ (recallDecimals rows : Rat))

/-- The judgement of a new run against the history. -/
def warns (rows : List Ranked) (history : List (List Ranked)) : Bool :=
  (scoreRun fl rows (history.map (storedRecall fl))).regression

/-- What the gate is for: a run with one hit less than the median is no regression, and one
with at least two hits and 5% of the questions less is. -/
def FlipRule (rows : List Ranked) (history : List (List Ranked)) : Prop :=
  (medianHits history - 1 ≤ hits rows → warns rows history = false) ∧
    (hits rows + 2 ≤ medianHits history →
      5 / 100 * (rows.length : Rat) < medianHits history - hits rows → warns rows history = true)

/-- The numbers of questions with the hits of two runs where the difference is half a
ten-thousandth from the threshold and is rounded away from it. -/
def roundedAway : List (Nat × List Nat) :=
  [(7, [0, 2]), (12, [2, 12]), (12, [3, 5]), (12, [3, 11]), (12, [5, 9]), (12, [6, 8]),
    (12, [8, 12]), (12, [9, 11]), (14, [2, 14]), (14, [3, 13]), (14, [6, 10]), (14, [7, 9]),
    (15, [0, 2]), (18, [0, 2]), (19, [0, 2])]

/-- One question less is a regression: there are fewer than twenty questions, and the stored
recalls were rounded up by enough. -/
def OneFlipWarns (rows : List Ranked) (history : List (List Ranked)) : Prop :=
  let n := rows.length
  n < 20 ∧ hits rows + 1 = medianHits history ∧
    ((n : Rat) < 2 * ((10000 % n : Nat) + n * medianDecimals history - 10000 * medianHits history) ∨
      (n, ((compared history).map hits).insertionSort (· ≤ ·)) ∈ roundedAway)

/-! ## Medians -/

/-- Sorting commutes with a monotone function. -/
theorem insertionSort_map_of_monotone {f : Nat → Rat} (hf : Monotone f) (l : List Nat) :
    (l.map f).insertionSort (· ≤ ·) = (l.insertionSort (· ≤ ·)).map f := by
  apply List.Perm.eq_of_pairwise' (r := (· ≤ ·))
  · exact List.pairwise_insertionSort _ _
  · exact (List.pairwise_insertionSort (· ≤ ·) l).map f fun _ _ h ↦ hf h
  · exact (List.perm_insertionSort _ _).trans ((List.perm_insertionSort _ _).map f).symm

/-- The two middle hits of up to three runs, and every median of a monotone function of the
hits. -/
structure Middle (l : List Nat) (a b : Nat) : Prop where
  mem_left : a ∈ l
  mem_right : b ∈ l
  le : a ≤ b
  median_eq : (a = b ∧ (∀ n, (n, l.insertionSort (· ≤ ·)) ∉ roundedAway) ∧
      ∀ rnd f, Monotone f → medianIn rnd (l.map f) = f a) ∨
    (l.insertionSort (· ≤ ·) = [a, b] ∧
      ∀ rnd f, Monotone f → medianIn rnd (l.map f) = rnd (rnd (f a + f b) / 2))

theorem length_of_mem_roundedAway {x : Nat × List Nat} (h : x ∈ roundedAway) : x.2.length = 2 := by
  revert h
  revert x
  decide

theorem exists_middle {l : List Nat} (hne : l ≠ []) (hlen : l.length ≤ 3) :
    ∃ a b, Middle l a b := by
  have hperm := List.perm_insertionSort (· ≤ ·) l
  have hmedian : ∀ rnd f, Monotone f → medianIn rnd (l.map f) =
      let sorted := (l.insertionSort (· ≤ ·)).map f
      if sorted.length % 2 = 1 then sorted.getD (sorted.length / 2) 0
      else rnd (rnd (sorted.getD (sorted.length / 2 - 1) 0 + sorted.getD (sorted.length / 2) 0)
        / 2) := by
    intro rnd f hf
    rw [medianIn, insertionSort_map_of_monotone hf]
  have hrounded : ∀ n, (n, l.insertionSort (· ≤ ·)) ∈ roundedAway →
      (l.insertionSort (· ≤ ·)).length = 2 := fun n h ↦ length_of_mem_roundedAway h
  have hsorted := List.pairwise_insertionSort (· ≤ ·) l
  rw [← hperm.length_eq] at hlen
  generalize hs : l.insertionSort (· ≤ ·) = s at hperm hmedian hrounded hsorted hlen
  have hmem : ∀ {x}, x ∈ s → x ∈ l := fun h ↦ hperm.subset h
  match s with
  | [] => exact absurd hperm.symm.eq_nil hne
  | [a] =>
      refine ⟨a, a, hmem (by simp), hmem (by simp), le_rfl, .inl ⟨rfl, ?_, ?_⟩⟩
      · intro n h
        rw [hs] at h
        cases hrounded n h
      · intro rnd f hf
        simp [hmedian rnd f hf]
  | [a, b] =>
      refine ⟨a, b, hmem (by simp), hmem (by simp), by simpa using hsorted, .inr ⟨hs, ?_⟩⟩
      intro rnd f hf
      simp [hmedian rnd f hf]
  | [a, b, c] =>
      refine ⟨b, b, hmem (by simp), hmem (by simp), le_rfl, .inl ⟨rfl, ?_, ?_⟩⟩
      · intro n h
        rw [hs] at h
        cases hrounded n h
      · intro rnd f hf
        simp [hmedian rnd f hf]
  | _ :: _ :: _ :: _ :: _ =>
      simp only [List.length_cons] at hlen
      omega

/-! ## The numbers

A run is now a number `n` of questions and a number `h` of hits.
-/

/-- The decimals of the recall that is stored. -/
def decimals (n h : Nat) : Int := roundHalfEven (fl (h / n) * 10 ^ 4)

/-- The recall that is stored. -/
def stored (n h : Nat) : Rat := fl (decimals n h / 10 ^ 4)

/-- The test of `judge`. -/
def falls (n : Nat) (recallAtK baseline : Rat) : Bool :=
  let delta := fl (roundTo (fl (recallAtK - baseline)) 4)
  let threshold := max (fl regressionFloor) (fl (1 / n))
  decide (-delta > fl (threshold + fl (1 / 10 ^ 9)))

theorem unitRoundoff_pos : 0 < unitRoundoff := by rw [unitRoundoff]; positivity

theorem unitRoundoff_le : unitRoundoff ≤ 1 / (9 * 10 ^ 15) := by rw [unitRoundoff]; norm_num

section Numbers

variable {n h a b : Nat}

theorem ratio_nonneg : (0 : Rat) ≤ (h : Rat) / n := by positivity

theorem ratio_le_one (hh : h ≤ n) : (h : Rat) / n ≤ 1 :=
  div_le_one_of_le₀ (by exact_mod_cast hh) (Nat.cast_nonneg n)

theorem decimals_mono (n : Nat) : Monotone fun h ↦ (decimals n h : Rat) := by
  intro h h' hle
  have hratio : (h : Rat) / n ≤ (h' : Rat) / n :=
    div_le_div_of_nonneg_right (by exact_mod_cast hle) (Nat.cast_nonneg n)
  have hscaled : fl (h / n) * 10 ^ 4 ≤ fl (h' / n) * 10 ^ 4 :=
    mul_le_mul_of_nonneg_right (fl_mono hratio) (by positivity)
  show (decimals n h : Rat) ≤ decimals n h'
  rw [decimals, decimals]
  exact_mod_cast roundHalfEven_mono hscaled

theorem stored_mono (n : Nat) : Monotone (stored n) := by
  intro h h' hle
  exact fl_mono (div_le_div_of_nonneg_right (decimals_mono n hle) (by positivity))

theorem recall_error (hh : h ≤ n) :
    (h : Rat) / n - unitRoundoff ≤ fl (h / n) ∧ fl (h / n) ≤ (h : Rat) / n + unitRoundoff := by
  have hpos : (0 : Rat) ≤ (h : Rat) / n := ratio_nonneg
  have herr := fl_error (b := 1) (by linarith) (ratio_le_one hh)
  rwa [mul_one] at herr

theorem decimals_error (hh : h ≤ n) :
    (h : Rat) / n * 10 ^ 4 - (1 / 2 + 1 / 10 ^ 11) ≤ decimals n h ∧
      (decimals n h : Rat) ≤ (h : Rat) / n * 10 ^ 4 + (1 / 2 + 1 / 10 ^ 11) := by
  obtain ⟨hlo, hhi⟩ := recall_error hh
  have hle := roundHalfEven_le (fl (h / n) * 10 ^ 4)
  have hge := le_roundHalfEven (fl (h / n) * 10 ^ 4)
  have hu := unitRoundoff_le
  rw [decimals]
  constructor
  · linarith
  · linarith

theorem stored_error (hh : h ≤ n) :
    (decimals n h : Rat) / 10 ^ 4 - 2 * unitRoundoff ≤ stored n h ∧
      stored n h ≤ (decimals n h : Rat) / 10 ^ 4 + 2 * unitRoundoff := by
  obtain ⟨hlo, hhi⟩ := decimals_error hh
  have hpos : (0 : Rat) ≤ (h : Rat) / n := ratio_nonneg
  have hone := ratio_le_one hh
  have herr := fl_error (x := (decimals n h : Rat) / 10 ^ 4) (b := 2) (by linarith) (by linarith)
  rw [stored]
  constructor
  · linarith
  · linarith

/-- Half the sum of two stored recalls. -/
theorem average_error {x y : Rat} (hx : -2 ≤ x) (hx' : x ≤ 2) (hy : -2 ≤ y) (hy' : y ≤ 2) :
    (x + y) / 2 - 5 * unitRoundoff ≤ fl (fl (x + y) / 2) ∧
      fl (fl (x + y) / 2) ≤ (x + y) / 2 + 5 * unitRoundoff := by
  have hu := unitRoundoff_le
  have hpos := unitRoundoff_pos
  obtain ⟨hlo, hhi⟩ := fl_error (x := x + y) (b := 4) (by linarith) (by linarith)
  obtain ⟨hlo', hhi'⟩ := fl_error (x := fl (x + y) / 2) (b := 3) (by linarith) (by linarith)
  constructor
  · linarith
  · linarith

/-- The regression test, in whole ten-thousandths. -/
theorem falls_iff {r x : Rat} {d : Int} (hn : 0 < n) (hn' : n ≤ 200)
    (hd : roundHalfEven (fl (r - x) * 10 ^ 4) = -d) (hlo : -20000 ≤ d) (hhi : d ≤ 20000) :
    falls n r x = true ↔ 500 < d ∧ 10000 < d * n := by
  have hu := unitRoundoff_le
  have hpos := unitRoundoff_pos
  have hnpos : (0 : Rat) < n := by exact_mod_cast hn
  have hinv : (1 : Rat) / n ≤ 1 := (div_le_one hnpos).mpr (by exact_mod_cast hn)
  have hfine : (1 : Rat) / 200 ≤ 1 / n := one_div_le_one_div_of_le hnpos (by exact_mod_cast hn')
  have hlo' : (-2 : Rat) ≤ d / 10 ^ 4 := by
    rw [le_div_iff₀ (by positivity)]
    exact_mod_cast hlo
  have hhi' : (d : Rat) / 10 ^ 4 ≤ 2 := by
    rw [div_le_iff₀ (by positivity)]
    exact_mod_cast hhi
  set m : Rat := max (5 / 100) (1 / n) with hm
  have hm0 : 5 / 100 ≤ m := le_max_left _ _
  have hm1 : 1 / n ≤ m := le_max_right _ _
  have hmle : m ≤ 1 := max_le (by norm_num) hinv
  have hthreshold : max (fl regressionFloor) (fl (1 / n)) = fl m := fl_mono.map_max.symm
  have hdelta : -fl (roundTo (fl (r - x)) 4) = fl (d / 10 ^ 4) := by
    rw [roundTo, hd, ← fl_neg, Int.cast_neg, neg_div, neg_neg]
  obtain ⟨hd1, hd2⟩ := fl_error hlo' hhi'
  obtain ⟨hm2, hm3⟩ := fl_error (x := m) (b := 1) (by linarith) hmle
  obtain ⟨he1, he2⟩ := fl_error (x := 1 / 10 ^ 9) (b := 1) (by norm_num) (by norm_num)
  obtain ⟨ht1, ht2⟩ := fl_error (x := fl m + fl (1 / 10 ^ 9)) (b := 2) (by linarith) (by linarith)
  rw [falls]
  simp only [hthreshold, hdelta, decide_eq_true_eq]
  constructor
  · intro hfalls
    by_contra hnot
    have hle : (d : Rat) / 10 ^ 4 ≤ m := by
      rw [not_and_or, not_lt, not_lt] at hnot
      rcases hnot with hfloor | hone
      · refine le_trans ?_ hm0
        rw [div_le_iff₀ (by positivity)]
        norm_num
        exact_mod_cast hfloor
      · refine le_trans ?_ hm1
        rw [div_le_div_iff₀ (by positivity) hnpos]
        norm_num
        exact_mod_cast hone
    have hmono := fl_mono hle
    linarith
  · rintro ⟨hfloor, hone⟩
    have hclear : m + 1 / 2000000 ≤ d / 10 ^ 4 := by
      rw [← le_sub_iff_add_le]
      refine max_le ?_ ?_
      · have h501 : (501 : Rat) ≤ d := by exact_mod_cast hfloor
        linarith
      · have hmore : (10001 : Rat) ≤ d * n := by exact_mod_cast hone
        have hquot : 10001 * (1 / n) ≤ (d : Rat) := by
          rw [mul_one_div, div_le_iff₀ hnpos]
          exact hmore
        linarith
    linarith

/-- The difference of a baseline `x` and a new recall, in ten-thousandths: `decimals` of the
median up to the errors of the operations. -/
structure Judged (n h a b : Nat) (x : Rat) (d : Int) : Prop where
  round_eq : roundHalfEven (fl (fl (h / n) - x) * 10 ^ 4) = -d
  above : ((decimals n a + decimals n b) / 2 - h / n * 10 ^ 4 : Rat) - 1 / 2 - 1 / 10 ^ 10 ≤ d
  below : (d : Rat) ≤
    ((decimals n a + decimals n b) / 2 - h / n * 10 ^ 4 : Rat) + 1 / 2 + 1 / 10 ^ 10
  lt_of_above : ∀ k : Int,
    (k : Rat) + 1 / 2 + 1 / 10 ^ 10 ≤ (decimals n a + decimals n b) / 2 - h / n * 10 ^ 4 → k < d
  le_of_below : ∀ k : Int,
    ((decimals n a + decimals n b) / 2 - h / n * 10 ^ 4 : Rat) ≤ k + 1 / 2 - 1 / 10 ^ 10 → d ≤ k

/-- What `statistics.median` makes of two middle recalls, or of one. -/
def IsBaseline (n a b : Nat) (x : Rat) : Prop :=
  a = b ∧ x = stored n a ∨ x = fl (fl (stored n a + stored n b) / 2)

theorem IsBaseline.error {x : Rat} (hx : IsBaseline n a b x) (ha : a ≤ n) (hb : b ≤ n) :
    ((decimals n a + decimals n b) / 2 / 10 ^ 4 : Rat) - 8 * unitRoundoff ≤ x ∧
      x ≤ ((decimals n a + decimals n b) / 2 / 10 ^ 4 : Rat) + 8 * unitRoundoff := by
  have hu := unitRoundoff_le
  have hpos := unitRoundoff_pos
  obtain ⟨ha1, ha2⟩ := stored_error ha
  obtain ⟨hb1, hb2⟩ := stored_error hb
  obtain ⟨ha3, ha4⟩ := decimals_error ha
  obtain ⟨hb3, hb4⟩ := decimals_error hb
  have ha5 : (0 : Rat) ≤ (a : Rat) / n := ratio_nonneg
  have hb5 : (0 : Rat) ≤ (b : Rat) / n := ratio_nonneg
  have ha6 := ratio_le_one ha
  have hb6 := ratio_le_one hb
  rcases hx with ⟨rfl, rfl⟩ | rfl
  · constructor
    · linarith
    · linarith
  · obtain ⟨hlo, hhi⟩ := average_error (x := stored n a) (y := stored n b) (by linarith)
      (by linarith) (by linarith) (by linarith)
    constructor
    · linarith
    · linarith

theorem exists_judged {x : Rat} (hx : IsBaseline n a b x) (hh : h ≤ n) (ha : a ≤ n) (hb : b ≤ n) :
    ∃ d, Judged n h a b x d ∧ -20000 ≤ d ∧ d ≤ 20000 := by
  have hu := unitRoundoff_le
  have hpos := unitRoundoff_pos
  obtain ⟨hx1, hx2⟩ := hx.error ha hb
  obtain ⟨hr1, hr2⟩ := recall_error hh
  obtain ⟨ha3, ha4⟩ := decimals_error ha
  obtain ⟨hb3, hb4⟩ := decimals_error hb
  have ha5 : (0 : Rat) ≤ (a : Rat) / n := ratio_nonneg
  have hb5 : (0 : Rat) ≤ (b : Rat) / n := ratio_nonneg
  have hh5 : (0 : Rat) ≤ (h : Rat) / n := ratio_nonneg
  have ha6 := ratio_le_one ha
  have hb6 := ratio_le_one hb
  have hh6 := ratio_le_one hh
  obtain ⟨hd1, hd2⟩ := fl_error (x := fl (h / n) - x) (b := 2) (by linarith) (by linarith)
  have hle := roundHalfEven_le (fl (fl (h / n) - x) * 10 ^ 4)
  have hge := le_roundHalfEven (fl (fl (h / n) - x) * 10 ^ 4)
  obtain ⟨d, hd⟩ : ∃ d, roundHalfEven (fl (fl (h / n) - x) * 10 ^ 4) = -d :=
    ⟨_, (neg_neg _).symm⟩
  rw [hd, Int.cast_neg] at hle hge
  refine ⟨d, ⟨hd, by linarith, by linarith, ?_, ?_⟩, ?_, ?_⟩
  · intro k hk
    have hlt : (k : Rat) < d := by linarith
    exact_mod_cast hlt
  · intro k hk
    have hlt : (d : Rat) < k + 1 := by linarith
    exact Int.lt_add_one_iff.mp (by exact_mod_cast hlt)
  · have hlt : (-20000 : Rat) ≤ d := by linarith
    exact_mod_cast hlt
  · have hlt : (d : Rat) ≤ 20000 := by linarith
    exact_mod_cast hlt

/-! ## The cases -/

/-- No more than half a question less than the median is no regression. -/
theorem falls_of_close {x : Rat} (hx : IsBaseline n a b x) (hn : 0 < n) (hn' : n ≤ 200)
    (hh : h ≤ n) (ha : a ≤ n) (hb : b ≤ n) (hclose : a + b ≤ 2 * h + 1) :
    falls n (fl (h / n)) x = false := by
  obtain ⟨d, hd, hlo, hhi⟩ := exists_judged hx hh ha hb
  rw [Bool.eq_false_iff]
  intro hfalls
  obtain ⟨-, hone⟩ := (falls_iff hn hn' hd.round_eq hlo hhi).mp hfalls
  obtain ⟨-, ha4⟩ := decimals_error ha
  obtain ⟨-, hb4⟩ := decimals_error hb
  have hbelow := hd.below
  have hnpos : (0 : Rat) < n := by exact_mod_cast hn
  have hone' : (10001 : Rat) ≤ d * n := by exact_mod_cast hone
  have hquot : 10001 * (1 / n) ≤ (d : Rat) := by
    rw [mul_one_div, div_le_iff₀ hnpos]
    exact hone'
  have hfine : (1 : Rat) / 200 ≤ 1 / n := one_div_le_one_div_of_le hnpos (by exact_mod_cast hn')
  have hdiff : (a : Rat) / n + b / n ≤ 2 * (h / n) + 1 / n := by
    rw [← add_div, ← mul_div_assoc, ← add_div]
    exact div_le_div_of_nonneg_right (by exact_mod_cast hclose) hnpos.le
  linarith

/-- At least two questions and more than 5% less is one. -/
theorem falls_of_far {x : Rat} (hx : IsBaseline n a b x) (hn : 0 < n) (hn' : n ≤ 200)
    (hh : h ≤ n) (ha : a ≤ n) (hb : b ≤ n) (htwo : 2 * h + 4 ≤ a + b)
    (hfloor : n + 20 * h < 10 * (a + b)) : falls n (fl (h / n)) x = true := by
  obtain ⟨d, hd, hlo, hhi⟩ := exists_judged hx hh ha hb
  rw [falls_iff hn hn' hd.round_eq hlo hhi]
  obtain ⟨ha3, -⟩ := decimals_error ha
  obtain ⟨hb3, -⟩ := decimals_error hb
  have habove := hd.above
  have hnpos : (0 : Rat) < n := by exact_mod_cast hn
  have hfine : (1 : Rat) / 200 ≤ 1 / n := one_div_le_one_div_of_le hnpos (by exact_mod_cast hn')
  have hdiff : 2 * ((h : Rat) / n) + 4 * (1 / n) ≤ a / n + b / n := by
    rw [← add_div, ← mul_div_assoc, mul_one_div, ← add_div]
    exact div_le_div_of_nonneg_right (by exact_mod_cast htwo) hnpos.le
  have hdiff' : 1 + 1 / n + 20 * ((h : Rat) / n) ≤ 10 * (a / n + b / n) := by
    have hself : (1 : Rat) = n / n := (div_self hnpos.ne').symm
    rw [← add_div, ← mul_div_assoc, ← mul_div_assoc]
    nth_rewrite 1 [hself]
    rw [← add_div, ← add_div]
    refine div_le_div_of_nonneg_right ?_ hnpos.le
    exact_mod_cast (by omega : n + 1 + 20 * h ≤ 10 * (a + b))
  constructor
  · have hlt : (500 : Rat) < d := by linarith
    exact_mod_cast hlt
  · have hquot : 10000 * (1 / n) < (d : Rat) := by linarith
    rw [mul_one_div, div_lt_iff₀ hnpos] at hquot
    exact_mod_cast hquot

/-- With twenty questions or more, one question less is within the floor. -/
theorem falls_of_many {x : Rat} (hx : IsBaseline n a b x) (hn : 20 ≤ n) (hn' : n ≤ 200)
    (hh : h ≤ n) (ha : a ≤ n) (hb : b ≤ n) (hone : a + b = 2 * h + 2) :
    falls n (fl (h / n)) x = false := by
  obtain ⟨d, hd, hlo, hhi⟩ := exists_judged hx hh ha hb
  rw [Bool.eq_false_iff]
  intro hfalls
  obtain ⟨hfloor, -⟩ := (falls_iff (by omega) hn' hd.round_eq hlo hhi).mp hfalls
  have hnpos : (0 : Rat) < n := by exact_mod_cast (by omega : 0 < n)
  have hdiff : (a : Rat) / n + b / n = 2 * (h / n) + 2 * (1 / n) := by
    rw [← add_div, ← mul_div_assoc, mul_one_div, ← add_div]
    congr 1
    exact_mod_cast hone
  have hfloor' : (501 : Rat) ≤ d := by exact_mod_cast hfloor
  rcases hn.eq_or_lt with rfl | hmore
  · -- the recalls are multiples of 5%, which have four decimals
    have hexact : ∀ k ≤ 20, decimals 20 k = 500 * k := by with_unfolding_all decide
    have hle := hd.le_of_below 500
    rw [hexact a ha, hexact b hb] at hle
    push_cast at hle hdiff
    have h500 : d ≤ 500 := hle (by linarith)
    omega
  · have hbelow := hd.below
    obtain ⟨-, ha4⟩ := decimals_error ha
    obtain ⟨-, hb4⟩ := decimals_error hb
    have hfine : (1 : Rat) / n ≤ 1 / 21 :=
      one_div_le_one_div_of_le (by norm_num) (by exact_mod_cast hmore)
    linarith

/-- Twice what the median's excess over one question is, in ten-thousandths of `1 / n`. -/
def excess (n a b : Nat) : Int :=
  2 * (10000 % n : Nat) + n * (decimals n a + decimals n b) - 10000 * (a + b : Nat)

/-- Where the difference is exactly half a ten-thousandth from the threshold, the table says
which way it is rounded. -/
def TableRight (n a b : Nat) : Bool :=
  let h := (a + b) / 2 - 1
  (a + b) % 2 == 1 || a + b < 2 || 20000 * h % n != 0 || excess n a b != n ||
    (a != b && falls n (fl (h / n)) (fl (fl (stored n a + stored n b) / 2)) ==
      decide ((n, [a, b]) ∈ roundedAway))

theorem table_right :
    ∀ n ∈ List.range' 1 19, ∀ a ∈ List.range (n + 1), ∀ b ∈ List.range' a (n + 1 - a),
      TableRight n a b := by
  decide +kernel

theorem excess_of_mem_roundedAway :
    ∀ x ∈ roundedAway, ∀ a ∈ x.2.head?, ∀ b ∈ x.2.getLast?, excess x.1 a b = x.1 := by
  with_unfolding_all decide

theorem falls_of_tie {x : Rat} (hx : IsBaseline n a b x) (hn : 0 < n) (hn' : n < 20) (hab : a ≤ b)
    (hb : b ≤ n) (hone : a + b = 2 * h + 2) (htie : excess n a b = n) :
    falls n (fl (h / n)) x = true ↔ (n, [a, b]) ∈ roundedAway := by
  have hright := table_right n (List.mem_range'_1.mpr (by omega)) a (List.mem_range.mpr (by omega))
    b (List.mem_range'_1.mpr (by omega))
  have hhalf : (a + b) / 2 - 1 = h := by omega
  have hmod : 20000 * h % n = 0 := by
    apply Nat.mod_eq_zero_of_dvd
    have hdiv := Nat.div_add_mod 10000 n
    rw [excess, hone] at htie
    have hz : (20000 * h : Int) =
        n * (decimals n a + decimals n b - 1 - 2 * (10000 / n : Nat)) := by
      push_cast at htie
      have hdiv' : (n : Int) * (10000 / n : Nat) + (10000 % n : Nat) = 10000 := by
        exact_mod_cast hdiv
      push_cast at hdiv' ⊢
      linarith
    exact Int.natCast_dvd_natCast.mp ⟨_, by exact_mod_cast hz⟩
  have hodd : (a + b) % 2 ≠ 1 := by omega
  have hmany : ¬ a + b < 2 := by omega
  simp only [TableRight, hhalf, hmod, htie, hodd, hmany, bne_self_eq_false, beq_iff_eq,
    Bool.or_eq_true, Bool.and_eq_true, bne_iff_ne, decide_false, false_or,
    or_false, Bool.false_eq_true] at hright
  obtain ⟨hne, htable⟩ := hright
  rcases hx with ⟨heq, -⟩ | rfl
  · exact absurd heq hne
  · rw [htable, decide_eq_true_eq]

/-- With fewer, it depends on the roundings. -/
theorem falls_of_few {x : Rat} (hx : IsBaseline n a b x) (hn : 0 < n) (hn' : n < 20)
    (hh : h ≤ n) (hab : a ≤ b) (hb : b ≤ n) (hone : a + b = 2 * h + 2) :
    falls n (fl (h / n)) x = true ↔ n < excess n a b ∨ (n, [a, b]) ∈ roundedAway := by
  have haway : (n, [a, b]) ∈ roundedAway → excess n a b = n := fun hmem ↦
    excess_of_mem_roundedAway _ hmem a rfl b rfl
  obtain ⟨d, hd, hlo, hhi⟩ := exists_judged hx hh (hab.trans hb) hb
  have hnpos : (0 : Rat) < n := by exact_mod_cast hn
  have hfine : (1 : Rat) / 20 ≤ 1 / n := one_div_le_one_div_of_le hnpos (by exact_mod_cast hn'.le)
  obtain ⟨q, hq⟩ : ∃ q : Int, q = ((10000 / n : Nat) : Int) := ⟨_, rfl⟩
  obtain ⟨m, hm⟩ : ∃ m : Int, m = ((10000 % n : Nat) : Int) := ⟨_, rfl⟩
  have hdiv : (n : Int) * q + m = 10000 := by
    rw [hq, hm]
    exact_mod_cast Nat.div_add_mod 10000 n
  -- the difference before it is rounded is `q + 1 / 2` and the excess over `n`
  have hdiff : ((decimals n a + decimals n b) / 2 - h / n * 10 ^ 4 : Rat) =
      q + 1 / 2 + (excess n a b - n : Int) * (1 / n) / 2 := by
    have hdiv' : (n : Rat) * q + m = 10000 := by exact_mod_cast hdiv
    have hone' : (a : Rat) + b = 2 * h + 2 := by exact_mod_cast hone
    rw [excess, ← hm]
    push_cast
    field_simp
    rw [hone']
    linarith
  have hfalls : falls n (fl (h / n)) x = true ↔ q < d := by
    rw [falls_iff hn (by omega) hd.round_eq hlo hhi]
    have hmod : 10000 % n < n := Nat.mod_lt _ hn
    constructor
    · rintro ⟨-, hone⟩
      by_contra hle
      have hmul : (n : Int) * d ≤ n * q := Int.mul_le_mul_of_nonneg_left (by omega) (by omega)
      rw [Int.mul_comm] at hone
      omega
    · intro hlt
      have hmul : (n : Int) * (q + 1) ≤ n * d := Int.mul_le_mul_of_nonneg_left hlt (by omega)
      have hq500 : 500 < q := by
        rw [hq]
        exact_mod_cast (Nat.le_div_iff_mul_le hn).mpr (by omega : 501 * n ≤ 10000)
      rw [Int.mul_comm d, Int.mul_add] at *
      constructor
      · omega
      · omega
  rcases lt_trichotomy (n : Int) (excess n a b) with hlt | heq | hgt
  · have hone : (1 : Rat) ≤ (excess n a b - n : Int) := by exact_mod_cast (by omega)
    have hfar : 1 / n ≤ (excess n a b - n : Int) * (1 / n : Rat) :=
      le_mul_of_one_le_left (by positivity) hone
    rw [hfalls]
    exact iff_of_true (hd.lt_of_above q (by linarith)) (.inl hlt)
  · rw [falls_of_tie hx hn hn' hab hb hone heq.symm]
    constructor
    · exact .inr
    · rintro (hlt | hmem)
      · omega
      · exact hmem
  · have hone : ((excess n a b - n : Int) : Rat) ≤ -1 := by exact_mod_cast (by omega)
    have hfar : (excess n a b - n : Int) * (1 / n : Rat) ≤ -1 * (1 / n) :=
      mul_le_mul_of_nonneg_right hone (by positivity)
    have hle := hd.le_of_below q (by linarith)
    rw [hfalls]
    refine iff_of_false (by omega) ?_
    rintro (hlt | hmem)
    · omega
    · have := haway hmem
      omega

/-- The rule, of numbers. -/
theorem falls_rule {x : Rat} (hx : IsBaseline n a b x) (hn : 0 < n) (hn' : n ≤ 200)
    (hh : h ≤ n) (hab : a ≤ b) (hb : b ≤ n) :
    ((a + b ≤ 2 * h + 2 → falls n (fl (h / n)) x = false) ∧
      (2 * h + 4 ≤ a + b → n + 20 * h < 10 * (a + b) → falls n (fl (h / n)) x = true)) ↔
    ¬ (n < 20 ∧ a + b = 2 * h + 2 ∧ (n < excess n a b ∨ (n, [a, b]) ∈ roundedAway)) := by
  have ha := hab.trans hb
  by_cases hone : a + b = 2 * h + 2
  · by_cases hfew : n < 20
    · rw [← falls_of_few hx hn hfew hh hab hb hone]
      constructor
      · rintro ⟨hsmall, -⟩ ⟨-, -, hfalls⟩
        rw [hsmall hone.le] at hfalls
        cases hfalls
      · intro hnot
        refine ⟨fun _ ↦ ?_, fun hfar ↦ by omega⟩
        rw [← Bool.not_eq_true]
        exact fun hfalls ↦ hnot ⟨hfew, hone, hfalls⟩
    · refine iff_of_true ⟨fun _ ↦ ?_, fun hfar ↦ by omega⟩ fun hall ↦ hfew hall.1
      exact falls_of_many hx (by omega) hn' hh ha hb hone
  · refine iff_of_true ⟨fun hle ↦ ?_, fun hfar hfloor ↦ ?_⟩ fun hall ↦ hone hall.2.1
    · exact falls_of_close hx hn hn' hh ha hb (by omega)
    · exact falls_of_far hx hn hn' hh ha hb hfar hfloor

end Numbers

/-! ## Runs and their numbers -/

section Runs

variable {rows : List Ranked} {history : List (List Ranked)} {n : Nat}

theorem hits_le (rows : List Ranked) : hits rows ≤ rows.length := List.countP_le_length

theorem recallIn_eq (rows : List Ranked) :
    recallIn fl rows goldenK = fl (hits rows / rows.length) := by
  rw [recallIn]
  split
  · next hnil => rw [hnil, Nat.cast_zero, div_zero, fl_zero]
  · rfl

theorem recallDecimals_eq (h : rows.length = n) : recallDecimals rows = decimals n (hits rows) := by
  rw [recallDecimals, recallIn_eq, h, decimals]

theorem storedRecall_eq (h : rows.length = n) : storedRecall fl rows = stored n (hits rows) := by
  rw [storedRecall, recallIn_eq, h, roundTo, stored, decimals]

/-- The judgement compares the recall with the median of the stored ones. -/
theorem warns_eq (hn : 0 < rows.length) (hne : compared history ≠ [])
    (hsame : ∀ r ∈ history, r.length = rows.length) :
    warns rows history = falls rows.length (fl (hits rows / rows.length))
      (medianIn fl (((compared history).map hits).map (stored rows.length))) := by
  have hwindow : (history.map (storedRecall fl)).take baselineRuns =
      ((compared history).map hits).map (stored rows.length) := by
    rw [← List.map_take, List.map_map]
    refine List.map_congr_left fun r hr ↦ ?_
    exact storedRecall_eq (hsame r (List.mem_of_mem_take hr))
  have hnone : ¬ (((compared history).map hits).map (stored rows.length) = [] ∨
      rows.length = 0) := by
    rw [List.map_eq_nil_iff, List.map_eq_nil_iff]
    rintro (hnil | hzero)
    · exact hne hnil
    · omega
  simp only [warns, scoreRun, judgeIn]
  rw [hwindow, if_neg hnone, recallIn_eq]
  rfl

theorem Middle.median_id {l : List Nat} {a b : Nat} (h : Middle l a b) {f : Nat → Rat}
    (hf : Monotone f) : median (l.map f) = (f a + f b) / 2 := by
  rcases h.median_eq with ⟨rfl, -, hmedian⟩ | ⟨-, hmedian⟩
  · have hself : medianIn id (l.map f) = f a := hmedian id f hf
    rw [medianIn_id] at hself
    rw [hself]
    ring
  · exact hmedian id f hf

theorem Middle.isBaseline {l : List Nat} {a b : Nat} (h : Middle l a b) (n : Nat) :
    IsBaseline n a b (medianIn fl (l.map (stored n))) := by
  rcases h.median_eq with ⟨rfl, -, hmedian⟩ | ⟨-, hmedian⟩
  · exact .inl ⟨rfl, hmedian fl _ (stored_mono n)⟩
  · exact .inr (hmedian fl _ (stored_mono n))

theorem Middle.mem_roundedAway {l : List Nat} {a b n : Nat} (h : Middle l a b) :
    (n, l.insertionSort (· ≤ ·)) ∈ roundedAway ↔ (n, [a, b]) ∈ roundedAway := by
  rcases h.median_eq with ⟨rfl, hnot, -⟩ | ⟨hsort, -⟩
  · have hne : ∀ x ∈ roundedAway, x.2.head? ≠ x.2.getLast? := by decide
    exact iff_of_false (hnot n) fun hmem ↦ hne _ hmem rfl
  · rw [hsort]

/-- The gate keeps the rule exactly where one question less does not warn. -/
theorem flipRule_iff (hn : 0 < rows.length) (hn' : rows.length ≤ 200)
    (hsame : ∀ r ∈ history, r.length = rows.length) :
    FlipRule rows history ↔ ¬ OneFlipWarns rows history := by
  by_cases hne : compared history = []
  · have hnil : (history.map (storedRecall fl)).take baselineRuns = [] := by
      rw [← List.map_take]
      exact List.map_eq_nil_iff.mpr hne
    have hfalse : warns rows history = false := by
      simp only [warns, scoreRun, judgeIn]
      rw [if_pos (.inl hnil)]
    have hzero : medianHits history = 0 := by
      simp [medianHits, hne, median]
    have hhits : (0 : Rat) ≤ hits rows := Nat.cast_nonneg _
    refine iff_of_true ⟨fun _ ↦ hfalse, fun htwo ↦ ?_⟩ fun hall ↦ ?_
    · rw [hzero] at htwo
      linarith
    · have hone := hall.2.1
      rw [hzero] at hone
      linarith
  · obtain ⟨a, b, hmid⟩ := exists_middle (l := (compared history).map hits)
      (by rwa [Ne, List.map_eq_nil_iff]) (by
        rw [List.length_map, compared, List.length_take]
        exact min_le_left _ _)
    have hall : ∀ k ∈ (compared history).map hits, k ≤ rows.length := by
      intro k hk
      obtain ⟨r, hr, rfl⟩ := List.mem_map.mp hk
      rw [← hsame r (List.mem_of_mem_take hr)]
      exact hits_le r
    have ha := hall a hmid.mem_left
    have hb := hall b hmid.mem_right
    have hh := hits_le rows
    have hx := hmid.isBaseline rows.length
    have hM : medianHits history = (a + b) / 2 := by
      rw [← hmid.median_id (f := fun k ↦ (k : Rat)) Nat.mono_cast, List.map_map]
      rfl
    have hK : medianDecimals history =
        (decimals rows.length a + decimals rows.length b) / 2 := by
      rw [← hmid.median_id (decimals_mono rows.length), List.map_map, medianDecimals]
      refine congrArg median (List.map_congr_left fun r hr ↦ ?_)
      rw [recallDecimals_eq (hsame r (List.mem_of_mem_take hr))]
      rfl
    have hclose : ((a + b) / 2 - 1 ≤ (hits rows : Rat)) ↔ a + b ≤ 2 * hits rows + 2 := by
      rw [sub_le_iff_le_add, div_le_iff₀ two_pos, ← Nat.cast_le (α := Rat)]
      push_cast
      ring_nf
    have hfar : ((hits rows : Rat) + 2 ≤ (a + b) / 2) ↔ 2 * hits rows + 4 ≤ a + b := by
      rw [le_div_iff₀ two_pos, ← Nat.cast_le (α := Rat)]
      push_cast
      ring_nf
    have hfloor : (5 / 100 * (rows.length : Rat) < (a + b) / 2 - hits rows) ↔
        rows.length + 20 * hits rows < 10 * (a + b) := by
      rw [← Nat.cast_lt (α := Rat)]
      push_cast
      constructor
      · intro hlt
        linarith
      · intro hlt
        linarith
    have hone : ((hits rows : Rat) + 1 = (a + b) / 2) ↔ a + b = 2 * hits rows + 2 := by
      rw [eq_div_iff two_ne_zero, ← Nat.cast_inj (R := Rat), eq_comm]
      push_cast
      ring_nf
    have hexcess : ((rows.length : Rat) < 2 * ((10000 % rows.length : Nat) + rows.length *
        ((decimals rows.length a + decimals rows.length b) / 2) - 10000 * ((a + b) / 2))) ↔
        (rows.length : Int) < excess rows.length a b := by
      rw [excess, ← Int.cast_lt (R := Rat)]
      generalize 10000 % rows.length = m
      push_cast
      ring_nf
    rw [FlipRule, OneFlipWarns, warns_eq hn hne hsame]
    simp only [hmid.mem_roundedAway, hM, hK, hclose, hfar, hfloor, hone, hexcess]
    exact falls_rule hx hn hn' hh hmid.le hb

end Runs

/-- A run over `n` questions with the first `h` answered. -/
def answered (n h : Nat) : List Ranked :=
  (List.range n).map fun i ↦
    { q := "q", expectedFile := "f", lang := none, rank := if i < h then some 1 else none, ms := 0 }

theorem flipRule_answered : FlipRule (answered 20 18) [answered 20 19, answered 20 20] :=
  (flipRule_iff (by decide) (by decide) (by decide)).mpr fun h ↦ absurd h.1 (by decide)

/-- Of three questions two were answered and now one is: the stored recall 0.6667 is above
two thirds, and the difference 0.3334 is a regression. -/
theorem warns_one_flip :
    ¬ ∀ rows history, 0 < rows.length → rows.length ≤ 200 →
      (∀ r ∈ history, r.length = rows.length) → FlipRule rows history := by
  intro hall
  have hrule := hall (answered 3 1) [answered 3 2] (by decide) (by decide) (by decide)
  have hone : medianHits [answered 3 2] - 1 ≤ hits (answered 3 1) := by with_unfolding_all decide
  have hwarns : warns (answered 3 1) [answered 3 2] = true := by
    set_option maxRecDepth 10000 in
    with_unfolding_all decide
  rw [hrule.1 hone] at hwarns
  cases hwarns

end Adapta.Golden
