import Adapta.Datasets.Rows
import Adapta.Lib.Means
import Adapta.Lib.Tally
import Mathlib.Tactic.Linarith

/-!
# The scores of the eval gate

The metrics of `adapta/services/eval_gate.py`, their aggregate over the rows of an eval set, and
the verdict on an adapter as a function of its scores.

## What is abstracted

* Scores are rationals.
* Lower case, the word characters of `\w` and the values of floats are parameters.
* What a model generates for a row is a parameter of `score`; times and samples are left out.
-/

namespace Adapta.Adapters

open Lib
open Datasets (parseJsonObject)

/-! ## The values of a JSON object -/

/-- The value of a number. -/
inductive Number where
  | finite (q : Rat)
  | infinite (negative : Bool)
  | nan
deriving DecidableEq, Repr

/-- Settings, and what depends on Unicode tables and floats. -/
structure Scoring where
  config : Datasets.Config
  /-- A character that `\w` matches. -/
  isWord : Code → Bool
  floatValue : FloatText → Number

/-- The parameters for texts without floats and with ASCII letters. -/
def Scoring.sample : Scoring where
  config := .sample
  isWord
    | .char x => x.isAlphanum || x = '_'
    | _ => false
  floatValue _ := .nan

section

variable (σ : Scoring)

/-- The number that a value is; the truth values are 0 and 1. -/
def number : Json → Option Number
  | .bool b => some (.finite (if b then 1 else 0))
  | .int n => some (.finite n)
  | .float x => some (σ.floatValue x)
  | _ => none

/-- Numbers are compared by value.  No NaN equals another, but in a list or a dictionary an
object equals itself, and the reader has one object for all of them. -/
def numberEq (nested : Bool) : Option Number → Option Number → Bool
  | some x, some y => x = y && (nested || x ≠ .nan)
  | _, _ => false

mutual

/-- `==` of two values, or of two entries of a list or a dictionary. -/
def valueEq (nested : Bool) : Json → Json → Bool
  | .null, .null => true
  | .str s, .str t => s = t
  | .arr l, .arr m => itemsEq l m
  | .obj l, .obj m => l.length = m.length && fieldsEq l m
  | v, w => numberEq nested (number σ v) (number σ w)

def itemsEq : List Json → List Json → Bool
  | [], [] => true
  | v :: l, w :: m => valueEq true v w && itemsEq l m
  | _, _ => false

def fieldsEq : List (Str × Json) → Fields → Bool
  | [], _ => true
  | (k, v) :: l, m => (getField m k).any (fun w ↦ valueEq true v w) && fieldsEq l m

end

/-! ## Metrics -/

/-- `_norm_label`. -/
def normLabel (text : Str) : Str := σ.config.lower (strip text)

/-- `classify_score`. -/
def classifyScore (prediction reference : Str) : Rat :=
  if normLabel σ prediction = normLabel σ reference then 1 else 0

/-- `key_match`. -/
def keyMatch (prediction reference : Fields) : Rat :=
  if reference = [] then 1
  else
    let hits := reference.countP fun x ↦ (getField prediction x.1).any (valueEq σ false · x.2)
    hits / reference.length

/-- `re.findall(r"\w+", text.lower())`. -/
def wordTokens (text : Str) : List Str :=
  ((σ.config.lower text).splitOnP fun c ↦ !σ.isWord c).filter (· ≠ [])

/-- `token_f1`. -/
def tokenF1 (prediction reference : Str) : Rat :=
  let pred := wordTokens σ prediction
  let ref := wordTokens σ reference
  if pred = [] ∨ ref = [] then
    if pred = [] ∧ ref = [] then 1 else 0
  else
    let common := matched pred (tally ref fun _ ↦ 0)
    if common = 0 then 0
    else
      let precision : Rat := common / pred.length
      let recalled : Rat := common / ref.length
      2 * precision * recalled / (precision + recalled)

/-! ## The aggregate -/

/-- What `aggregate` has for an extraction besides the score. -/
structure Extras where
  parseRate : Rat
  keyMatch : Rat
deriving DecidableEq, Repr

/-- What `aggregate` returns. -/
structure Aggregate where
  score : Rat
  perRow : List Rat
  extras : Option Extras
deriving DecidableEq, Repr

/-- The loop of `aggregate` over the rows of an extraction: the scores of all rows, and of those
that parsed. -/
def extractRows : List (Str × Str) → List Rat → List Rat → List Rat × List Rat
  | [], perRow, found => (perRow, found)
  | (pred, ref) :: rows, perRow, found =>
      let refObj := (parseJsonObject σ.config ref).getD []
      match parseJsonObject σ.config pred with
      | none => extractRows rows (perRow ++ [0]) found
      | some predObj =>
          let m := keyMatch σ predObj refObj
          extractRows rows (perRow ++ [m]) (found ++ [m])

/-- `aggregate`; there is none if the lists differ in length. -/
def aggregate (task : EvalTask) (predictions references : List Str) : Option Aggregate :=
  let n := references.length
  if n = 0 then some ⟨0, [], none⟩
  else if predictions.length ≠ references.length then none
  else
    match task with
    | .classify =>
        let perRow := List.zipWith (classifyScore σ) predictions references
        some ⟨perRow.sum / n, perRow, none⟩
    | .freeform =>
        let perRow := List.zipWith (tokenF1 σ) predictions references
        some ⟨perRow.sum / n, perRow, none⟩
    | .extract =>
        let (perRow, found) := extractRows σ (predictions.zip references) [] []
        let parseRate : Rat := found.length / n
        let meanMatch : Rat := if found = [] then 0 else found.sum / found.length
        some ⟨parseRate * meanMatch, perRow, some ⟨parseRate, meanMatch⟩⟩

/-! ## Scoring through the serving path -/

/-- A row of an eval set. -/
structure EvalRow where
  prompt : Str
  response : Str
  system : Option Str
deriving DecidableEq

/-- `score`, given what the model generates for a row. -/
def score (generate : EvalRow → Str) (rows : List EvalRow) (task : EvalTask) : Option Aggregate :=
  aggregate σ task (rows.map generate) (rows.map (·.response))

/-- `evaluate`, given what the base and the adapter generate for a row. -/
def evaluateRows (t : Thresholds) (base adapter : EvalRow → Str) (rows : List EvalRow)
    (task : EvalTask) : Option Metrics := do
  let b ← score σ base rows task
  let a ← score σ adapter rows task
  pure (evaluate t rows.length a.score b.score task)

/-! ## Scores as means -/

/-- What an extraction's row scores, if the prediction parses. -/
def rowMatch (x : Str × Str) : Option Rat :=
  (parseJsonObject σ.config x.1).map fun predObj ↦
    keyMatch σ predObj ((parseJsonObject σ.config x.2).getD [])

/-- What a row scores. -/
def rowScore : EvalTask → Str → Str → Rat
  | .classify, prediction, reference => classifyScore σ prediction reference
  | .extract, prediction, reference => (rowMatch σ (prediction, reference)).getD 0
  | .freeform, prediction, reference => tokenF1 σ prediction reference

/-- The scores of the rows that parsed. -/
def parsedScores (predictions references : List Str) : List Rat :=
  ((predictions.zip references).map (rowMatch σ)).reduceOption

/-- The score is the mean of what the rows score, and a fraction. -/
structure Averaged (task : EvalTask) (predictions references : List Str) (a : Aggregate) :
    Prop where
  perRow : a.perRow = List.zipWith (rowScore σ task) predictions references
  score : a.score = mean a.perRow
  unit : 0 ≤ a.score ∧ a.score ≤ 1
  extras : task = .extract → references ≠ [] → ∃ e ∈ a.extras,
    e.parseRate = (parsedScores σ predictions references).length / references.length ∧
    e.keyMatch = mean (parsedScores σ predictions references) ∧
    e.parseRate * e.keyMatch = mean a.perRow

/-- What the verdict on an adapter rests on, for an eval set and a score of the base. -/
structure GateArithmetic (t : Thresholds) (base : Rat) (task : EvalTask) (references : List Str) :
    Prop where
  averaged : ∀ predictions, predictions.length = references.length →
    ∃ a, aggregate σ task predictions references = some a ∧
      Averaged σ task predictions references a
  monotone : ∀ predictionsA predictionsB a b,
    aggregate σ task predictionsA references = some a →
    aggregate σ task predictionsB references = some b →
    List.Forall₂ (· ≤ ·) b.perRow a.perRow →
    (evaluate t references.length b.score base task).passed = true →
    (evaluate t references.length a.score base task).passed = true
  noWorse : ∀ predictions a, aggregate σ task predictions references = some a →
    (evaluate t references.length a.score base task).passed = true → base - eps ≤ a.score

end

/-! ## The score of a row -/

variable {σ : Scoring} {task : EvalTask} {predictions references : List Str} {a : Aggregate}

theorem classifyScore_mem_unit (prediction reference : Str) :
    0 ≤ classifyScore σ prediction reference ∧ classifyScore σ prediction reference ≤ 1 := by
  rw [classifyScore]
  split
  · exact ⟨zero_le_one, le_rfl⟩
  · exact ⟨le_rfl, zero_le_one⟩

theorem keyMatch_mem_unit (prediction reference : Fields) :
    0 ≤ keyMatch σ prediction reference ∧ keyMatch σ prediction reference ≤ 1 := by
  rw [keyMatch]
  split
  · exact ⟨zero_le_one, le_rfl⟩
  · exact part_mem_unit List.countP_le_length

/-- What is common to the two texts is a part of either, and the score the harmonic mean. -/
theorem tokenF1_mem_unit (prediction reference : Str) :
    0 ≤ tokenF1 σ prediction reference ∧ tokenF1 σ prediction reference ≤ 1 := by
  rw [tokenF1]
  split
  · split
    · exact ⟨zero_le_one, le_rfl⟩
    · exact ⟨le_rfl, zero_le_one⟩
  · dsimp only
    split
    · exact ⟨le_rfl, zero_le_one⟩
    · apply harmonic_mem_unit
      · exact part_mem_unit (matched_le_left _ _)
      · exact part_mem_unit (matched_le_right _ _)

theorem rowScore_mem_unit (task : EvalTask) (prediction reference : Str) :
    0 ≤ rowScore σ task prediction reference ∧ rowScore σ task prediction reference ≤ 1 := by
  cases task with
  | classify => exact classifyScore_mem_unit prediction reference
  | freeform => exact tokenF1_mem_unit prediction reference
  | extract =>
      rw [rowScore, rowMatch]
      cases parseJsonObject σ.config prediction with
      | none => exact ⟨le_rfl, zero_le_one⟩
      | some predObj => exact keyMatch_mem_unit predObj _

/-! ## The loop over the rows of an extraction -/

theorem extractRows_eq (rows : List (Str × Str)) (perRow found : List Rat) :
    extractRows σ rows perRow found =
      (perRow ++ (rows.map (rowMatch σ)).map (·.getD 0),
        found ++ (rows.map (rowMatch σ)).reduceOption) := by
  induction rows generalizing perRow found with
  | nil => simp [extractRows]
  | cons x rows ih =>
      obtain ⟨pred, ref⟩ := x
      rw [extractRows]
      cases hpred : parseJsonObject σ.config pred with
      | none =>
          have hrow : rowMatch σ (pred, ref) = none := by rw [rowMatch, hpred, Option.map_none]
          simp only [ih, List.map_cons, hrow, Option.getD_none, List.reduceOption_cons_of_none,
            List.append_assoc, List.singleton_append]
      | some predObj =>
          have hrow : rowMatch σ (pred, ref) =
              some (keyMatch σ predObj ((parseJsonObject σ.config ref).getD [])) := by
            rw [rowMatch, hpred, Option.map_some]
          simp only [ih, List.map_cons, hrow, Option.getD_some, List.reduceOption_cons_of_some,
            List.append_assoc, List.singleton_append]

/-- The rows' scores, in the order of the two lists. -/
theorem map_rowMatch (predictions references : List Str) :
    ((predictions.zip references).map (rowMatch σ)).map (·.getD 0) =
      List.zipWith (rowScore σ .extract) predictions references := by
  rw [List.map_map, List.map_zip_eq_zipWith]
  rfl

/-! ## The aggregate -/

theorem averaged_nil (task : EvalTask) (predictions : List Str) :
    Averaged σ task predictions [] ⟨0, [], none⟩ where
  perRow := (List.zipWith_nil_right ..).symm
  score := mean_nil.symm
  unit := ⟨le_rfl, zero_le_one⟩
  extras := by
    intro _ hne
    exact absurd rfl hne

/-- The mean of what the rows score is a fraction. -/
theorem mean_rowScore_mem_unit (task : EvalTask) (predictions references : List Str) :
    0 ≤ mean (List.zipWith (rowScore σ task) predictions references) ∧
      mean (List.zipWith (rowScore σ task) predictions references) ≤ 1 := by
  apply mean_mem_unit
  intro x hx
  rw [← List.map_uncurry_zip_eq_zipWith, List.mem_map] at hx
  obtain ⟨⟨p, r⟩, -, rfl⟩ := hx
  exact rowScore_mem_unit task p r

/-- A plain mean over the rows. -/
theorem averaged_sum (htask : task ≠ .extract) (h : predictions.length = references.length) :
    Averaged σ task predictions references
      ⟨(List.zipWith (rowScore σ task) predictions references).sum / references.length,
        List.zipWith (rowScore σ task) predictions references, none⟩ := by
  have hmean : (List.zipWith (rowScore σ task) predictions references).sum / references.length =
      mean (List.zipWith (rowScore σ task) predictions references) := by
    rw [mean, List.length_zipWith, h, Nat.min_self]
  rw [hmean]
  refine ⟨rfl, rfl, mean_rowScore_mem_unit task predictions references, ?_⟩
  intro hext
  exact absurd hext htask

/-- The rate of the rows that parsed times what these score on average. -/
theorem parseRate_mul_keyMatch (h : predictions.length = references.length) :
    ((parsedScores σ predictions references).length / references.length : Rat) *
        mean (parsedScores σ predictions references) =
      mean (List.zipWith (rowScore σ .extract) predictions references) := by
  have hlen : references.length = ((predictions.zip references).map (rowMatch σ)).length := by
    rw [List.length_map, List.length_zip, h, Nat.min_self]
  rw [parsedScores, hlen, rate_mul_mean, map_rowMatch]

theorem averaged_extract (h : predictions.length = references.length) :
    Averaged σ .extract predictions references
      ⟨(parsedScores σ predictions references).length / references.length *
          mean (parsedScores σ predictions references),
        List.zipWith (rowScore σ .extract) predictions references,
        some ⟨(parsedScores σ predictions references).length / references.length,
          mean (parsedScores σ predictions references)⟩⟩ := by
  have hmul := parseRate_mul_keyMatch (σ := σ) h
  refine ⟨rfl, hmul, ?_, ?_⟩
  · rw [hmul]
    exact mean_rowScore_mem_unit .extract predictions references
  · intro _ _
    exact ⟨_, rfl, rfl, rfl, hmul⟩

theorem aggregate_extract (h : predictions.length = references.length) (hne : references ≠ []) :
    aggregate σ .extract predictions references =
      some ⟨(parsedScores σ predictions references).length / references.length *
          mean (parsedScores σ predictions references),
        List.zipWith (rowScore σ .extract) predictions references,
        some ⟨(parsedScores σ predictions references).length / references.length,
          mean (parsedScores σ predictions references)⟩⟩ := by
  have hn : references.length ≠ 0 := by
    rw [ne_eq, List.length_eq_zero_iff]
    exact hne
  rw [aggregate, if_neg hn, if_neg (not_not.mpr h)]
  simp only [extractRows_eq, List.nil_append, map_rowMatch]
  rw [← parsedScores, ite_mean]

theorem exists_aggregate (task : EvalTask) (h : predictions.length = references.length) :
    ∃ a, aggregate σ task predictions references = some a ∧
      Averaged σ task predictions references a := by
  by_cases hnil : references = []
  · subst hnil
    exact ⟨_, rfl, averaged_nil task predictions⟩
  · have hn : references.length ≠ 0 := by
      rw [ne_eq, List.length_eq_zero_iff]
      exact hnil
    cases task with
    | classify =>
        have havg := averaged_sum (σ := σ) (EvalTask.noConfusion : EvalTask.classify ≠ .extract) h
        refine ⟨_, ?_, havg⟩
        rw [aggregate, if_neg hn, if_neg (not_not.mpr h)]
        rfl
    | freeform =>
        have havg := averaged_sum (σ := σ) (EvalTask.noConfusion : EvalTask.freeform ≠ .extract) h
        refine ⟨_, ?_, havg⟩
        rw [aggregate, if_neg hn, if_neg (not_not.mpr h)]
        rfl
    | extract => exact ⟨_, aggregate_extract h hnil, averaged_extract h⟩

/-- Whatever is aggregated is averaged: only lists of one length are, and no rows. -/
theorem averaged_of_aggregate (h : aggregate σ task predictions references = some a) :
    Averaged σ task predictions references a := by
  by_cases hnil : references = []
  · subst hnil
    cases h
    exact averaged_nil task predictions
  · by_cases hlen : predictions.length = references.length
    · obtain ⟨b, hb, havg⟩ := exists_aggregate (σ := σ) task hlen
      rw [h] at hb
      cases hb
      exact havg
    · have hn : references.length ≠ 0 := by
        rw [ne_eq, List.length_eq_zero_iff]
        exact hnil
      simp only [aggregate, if_neg hn, if_pos hlen, reduceCtorEq] at h

/-! ## The verdict -/

section

variable {t : Thresholds} {x y base : Rat}

/-- When an adapter passes: by either rule. -/
theorem passed_iff {n : Nat} : (evaluate t n x base task).passed = true ↔
    t.evalMinImprovement - eps ≤ x - base ∨
      t.evalAbsoluteFloor - eps ≤ x ∧ -eps ≤ x - base := by
  have hpassed : (evaluate t n x base task).passed = true ↔ decideRule t x base ≠ .failed :=
    decide_eq_true_iff
  rw [hpassed, decideRule]
  by_cases himp : t.evalMinImprovement - eps ≤ x - base
  · simp [himp]
  · by_cases hfloor : t.evalAbsoluteFloor - eps ≤ x ∧ -eps ≤ x - base
    · simp [himp, hfloor]
    · rw [if_neg himp, if_neg hfloor]
      simp only [ne_eq, not_true_eq_false, himp, hfloor, or_self]

/-- A better score passes if a worse one does. -/
theorem passed_mono {n : Nat} (hxy : x ≤ y) (h : (evaluate t n x base task).passed = true) :
    (evaluate t n y base task).passed = true := by
  have hdelta : x - base ≤ y - base := sub_le_sub_right hxy base
  rw [passed_iff] at h ⊢
  rcases h with himp | ⟨hfloor, hbase⟩
  · exact Or.inl (himp.trans hdelta)
  · exact Or.inr ⟨hfloor.trans hxy, hbase.trans hdelta⟩

/-- Under either rule an adapter that passes is no worse than the base. -/
theorem base_le_of_passed {n : Nat} (hmin : 0 ≤ t.evalMinImprovement)
    (h : (evaluate t n x base task).passed = true) : base - eps ≤ x := by
  have hdelta : -eps ≤ x - base := by
    rw [passed_iff] at h
    rcases h with himp | ⟨-, hbase⟩
    · exact le_trans (by linarith) himp
    · exact hbase
  linarith

end

/-- **The arithmetic of the gate**: scores are means of what the rows score, an adapter that is
at least as good on every row as one that passes does pass, and none passes that is worse than
the base. -/
theorem gate_arithmetic (σ : Scoring) (t : Thresholds) (hmin : 0 ≤ t.evalMinImprovement)
    (base : Rat) (task : EvalTask) (references : List Str) :
    GateArithmetic σ t base task references where
  averaged _ h := exists_aggregate task h
  monotone _ _ a b ha hb hrows hpassed := by
    have hscore : b.score ≤ a.score := by
      rw [(averaged_of_aggregate ha).score, (averaged_of_aggregate hb).score]
      exact mean_mono hrows
    exact passed_mono hscore hpassed
  noWorse _ _ _ hpassed := base_le_of_passed hmin hpassed

/-- Both labels right, after one of the two was enough. -/
theorem gate_arithmetic_labels :
    GateArithmetic .sample ⟨1 / 20, 4 / 5⟩ (2 / 5) .classify [str "billing", str "technical"] ∧
      (evaluate ⟨1 / 20, 4 / 5⟩ 2 1 (2 / 5) .classify).passed = true := by
  have h := gate_arithmetic .sample ⟨1 / 20, 4 / 5⟩ (by with_unfolding_all decide) (2 / 5) .classify
    [str "billing", str "technical"]
  refine ⟨h, ?_⟩
  exact h.monotone [str " Billing\n", str "technical"] [str "billing", str "account"]
    ⟨1, [1, 1], none⟩ ⟨1 / 2, [1, 0], none⟩ (by with_unfolding_all decide)
    (by with_unfolding_all decide)
    (by simp) (by with_unfolding_all decide)

/-- Both are scored on the same rows, and the adapter that passes is no worse than the base. -/
theorem evaluateRows_spec (σ : Scoring) {t : Thresholds} (hmin : 0 ≤ t.evalMinImprovement)
    (base adapter : EvalRow → Str) (rows : List EvalRow) (task : EvalTask) :
    ∃ m, evaluateRows σ t base adapter rows task = some m ∧
      m.baseScore = mean (rows.map fun r ↦ rowScore σ task (base r) r.response) ∧
      m.adapterScore = mean (rows.map fun r ↦ rowScore σ task (adapter r) r.response) ∧
      (m.passed = true → m.baseScore - eps ≤ m.adapterScore) := by
  have hscore (generate : EvalRow → Str) : ∃ a, score σ generate rows task = some a ∧
      a.score = mean (rows.map fun r ↦ rowScore σ task (generate r) r.response) := by
    have hlen : (rows.map generate).length = (rows.map (·.response)).length := by
      rw [List.length_map, List.length_map]
    obtain ⟨a, ha, havg⟩ := exists_aggregate (σ := σ) task hlen
    refine ⟨a, ha, ?_⟩
    rw [havg.score, havg.perRow, List.zipWith_map_left, List.zipWith_map_right,
      List.zipWith_self]
  obtain ⟨b, hb, hbase⟩ := hscore base
  obtain ⟨a, ha, hadapter⟩ := hscore adapter
  refine ⟨evaluate t rows.length a.score b.score task, ?_, hbase, hadapter, ?_⟩
  · rw [evaluateRows, hb, ha]
    rfl
  · intro hpassed
    exact base_le_of_passed hmin hpassed

end Adapta.Adapters
