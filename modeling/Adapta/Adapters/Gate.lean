import Mathlib.Data.Rat.Defs
import Mathlib.Algebra.Order.Ring.Unbundled.Rat

/-!
# The eval gate

The decision part of `adapta/services/eval_gate.py` and the name resolution of
`adapta/core/model_catalog.py`, as far as the life of an adapter depends on them.

Scores are rationals here.  The generation of predictions is outside the model: the two
aggregate scores are arguments of `evaluate`, and of the persisted document only what the
gate decides with is kept (no samples, extras or timings).
-/

namespace Adapta.Adapters

/-! ## The catalog -/

/-- A catalog entry. -/
structure CatalogEntry where
  name : String
  hfRepoId : String
deriving DecidableEq, Repr

/-- `resolve`: by operator name first, then by Hugging Face repo id.  Of several entries
with one name the dictionary keeps the last. -/
def resolve (catalog : List CatalogEntry) (baseModel : String) : Option CatalogEntry :=
  catalog.reverse.find? (·.name = baseModel) <|> catalog.reverse.find? (·.hfRepoId = baseModel)

/-- The name of an entry resolves to an entry of that name. -/
theorem resolve_name {catalog : List CatalogEntry} {baseModel : String} {e : CatalogEntry}
    (h : resolve catalog baseModel = some e) :
    ∃ e', resolve catalog e.name = some e' ∧ e'.name = e.name := by
  have hmem : e ∈ catalog.reverse := by
    rw [resolve, Option.orElse_eq_some] at h
    rcases h with h | ⟨-, h⟩
    · exact List.mem_of_find?_eq_some h
    · exact List.mem_of_find?_eq_some h
  have hsome : (catalog.reverse.find? (·.name = e.name)).isSome :=
    List.find?_isSome.mpr ⟨e, hmem, by simp⟩
  obtain ⟨e', he'⟩ := Option.isSome_iff_exists.mp hsome
  refine ⟨e', ?_, by simpa using List.find?_some he'⟩
  rw [resolve, he']
  rfl

/-! ## The verdict -/

/-- The eval tasks. -/
inductive EvalTask where
  | classify
  | extract
  | freeform
deriving DecidableEq, Repr

/-- Which rule decided a verdict. -/
inductive Rule where
  | improvement
  | absoluteFloor
  | failed
deriving DecidableEq, Repr

/-- The thresholds of the gate. -/
structure Thresholds where
  evalMinImprovement : Rat
  evalAbsoluteFloor : Rat

/-- `_EPS`. -/
def eps : Rat := 1 / 1000000000

/-- The rule `passes` decides by. -/
def decideRule (t : Thresholds) (adapter base : Rat) : Rule :=
  if t.evalMinImprovement - eps ≤ adapter - base then .improvement
  else if t.evalAbsoluteFloor - eps ≤ adapter ∧ -eps ≤ adapter - base then .absoluteFloor
  else .failed

/-- The persisted `eval_metrics` document. -/
structure Metrics where
  task : EvalTask
  nRows : Nat
  adapterScore : Rat
  baseScore : Rat
  delta : Rat
  rule : Rule
  passed : Bool
  minImprovement : Rat
  absoluteFloor : Rat
deriving DecidableEq

/-- `evaluate`, given the scores of the base and of the adapter on the eval rows. -/
def evaluate (t : Thresholds) (nRows : Nat) (adapterScore baseScore : Rat) (task : EvalTask) :
    Metrics :=
  let rule := decideRule t adapterScore baseScore
  { task := task
    nRows := nRows
    adapterScore := adapterScore
    baseScore := baseScore
    delta := adapterScore - baseScore
    rule := rule
    passed := rule ≠ .failed
    minImprovement := t.evalMinImprovement
    absoluteFloor := t.evalAbsoluteFloor }

@[simp] theorem evaluate_task (t : Thresholds) (n : Nat) (x y : Rat) (task : EvalTask) :
    (evaluate t n x y task).task = task := rfl

end Adapta.Adapters
