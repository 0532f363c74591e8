import Mathlib.Algebra.BigOperators.Group.List.Basic
import Mathlib.Data.List.Dedup
import Mathlib.Data.List.Induction

/-!
# Grouped aggregates

`SELECT key, agg FROM rows GROUP BY key`, and the dict that is made of its result.  A group without
rows has no entry, so a dict of groups gives for each key the aggregate of the rows with this key,
if there are any: one query for many keys answers as one query for each.

A rollup is a table with one row for each key, to which amounts are added one by one.  It is what
`GROUP BY` makes of the amounts that were added (`dictOf_rollup`), and deleting rows of some keys is
as if their amounts had never been added (`filter_rollup`).

The order of the groups is not specified, and no lookup depends on it.
-/

namespace Lib

variable {α β κ : Type*} [DecidableEq κ]

/-- The groups of some rows, each with its aggregate. -/
def groupBy (key : α → κ) (agg : List α → β) (rows : List α) : List (κ × β) :=
  (rows.map key).dedup.map fun k ↦ (k, agg (rows.filter fun r ↦ key r = k))

/-- A dict that is filled in the order of a list: the last value of a key is the one that stays. -/
def dictOf (l : List (κ × β)) (k : κ) : Option β := ((l.filter (·.1 = k)).map Prod.snd).getLast?

variable {key : α → κ} {agg : List α → β} {rows : List α} {l : List (κ × β)} {k : κ}

theorem dictOf_nil : dictOf ([] : List (κ × β)) k = none := rfl

theorem dictOf_append (l' : List (κ × β)) : dictOf (l ++ l') k = (dictOf l' k).or (dictOf l k) := by
  simp [dictOf, List.getLast?_append]

theorem dictOf_cons (x : κ × β) :
    dictOf (x :: l) k = (dictOf l k).or (if x.1 = k then some x.2 else none) := by
  have h := dictOf_append (l := [x]) (k := k) l
  rw [List.singleton_append] at h
  rw [h]
  by_cases hx : x.1 = k
  · simp [dictOf, hx]
  · simp [dictOf, hx]

theorem dictOf_eq_none (hk : k ∉ l.map Prod.fst) : dictOf l k = none := by
  have hnil : l.filter (·.1 = k) = [] := by
    rw [List.filter_eq_nil_iff]
    intro x hx hxk
    exact hk (of_decide_eq_true hxk ▸ List.mem_map_of_mem hx)
  rw [dictOf, hnil]
  rfl

/-- The rows of a table with unique keys are its entries. -/
theorem mem_iff_dictOf (hl : (l.map Prod.fst).Nodup) {b : β} :
    (k, b) ∈ l ↔ dictOf l k = some b := by
  induction l with
  | nil => simp [dictOf_nil]
  | cons x l ih =>
      obtain ⟨j, c⟩ := x
      rw [List.map_cons, List.nodup_cons] at hl
      rw [List.mem_cons, dictOf_cons, ih hl.2]
      by_cases hj : j = k
      · subst hj
        simp [dictOf_eq_none hl.1, eq_comm]
      · simp [hj, Ne.symm hj]

/-- A dict comprehension over keys, which may be repeated. -/
theorem dictOf_map (f : κ → β) (ks : List κ) :
    dictOf (ks.map fun k ↦ (k, f k)) k = if k ∈ ks then some (f k) else none := by
  induction ks using List.reverseRecOn with
  | nil => rfl
  | append_singleton ks j ih =>
      rw [List.map_append, dictOf_append, ih]
      by_cases hj : j = k
      · subst hj
        simp [dictOf]
      · have hk : k ≠ j := fun h ↦ hj h.symm
        simp [dictOf, hj, hk]

/-- Values that are made of the entries one by one. -/
theorem dictOf_map_value {γ : Type*} (f : κ → β → γ) :
    dictOf (l.map fun x ↦ (x.1, f x.1 x.2)) k = (dictOf l k).map (f k) := by
  induction l with
  | nil => rfl
  | cons x l ih =>
      rw [List.map_cons, dictOf_cons, dictOf_cons, ih]
      by_cases hx : x.1 = k
      · cases dictOf l k with
        | none => simp [hx]
        | some b => simp
      · simp [hx]

/-- An entry for each row: the last row of a key is the one that stays. -/
theorem dictOf_map_row (f : α → β) : dictOf (rows.map fun r ↦ (key r, f r)) k =
    (rows.filter fun r ↦ key r = k).getLast?.map f := by
  rw [dictOf, List.filter_map, List.map_map, List.getLast?_map]
  rfl

/-- A dict of groups has the aggregate of the rows with this key, if there are any. -/
theorem dictOf_groupBy : dictOf (groupBy key agg rows) k =
    if (rows.filter fun r ↦ key r = k) = [] then none
    else some (agg (rows.filter fun r ↦ key r = k)) := by
  have hmem : k ∈ (rows.map key).dedup ↔ (rows.filter fun r ↦ key r = k) ≠ [] := by
    rw [List.mem_dedup, List.mem_map, ne_eq, List.filter_eq_nil_iff]
    simp
  rw [groupBy, dictOf_map fun k ↦ agg (rows.filter fun r ↦ key r = k)]
  by_cases h : (rows.filter fun r ↦ key r = k) = []
  · rw [if_pos h, if_neg fun hk ↦ hmem.mp hk h]
  · rw [if_neg h, if_pos (hmem.mpr h)]

/-- An aggregate that is `b` over no rows needs no case for a missing group. -/
theorem dictOf_groupBy_getD {b : β} (hb : agg [] = b) :
    (dictOf (groupBy key agg rows) k).getD b = agg (rows.filter fun r ↦ key r = k) := by
  rw [dictOf_groupBy]
  split
  · next h => rw [h, hb, Option.getD_none]
  · rw [Option.getD_some]

/-- Rows of other keys may be left out beforehand: this is the condition `key IN keys`. -/
theorem filter_filter_mem {ks : List κ} (hk : k ∈ ks) (rows : List α) :
    ((rows.filter fun r ↦ key r ∈ ks).filter fun r ↦ key r = k) =
      rows.filter fun r ↦ key r = k := by
  rw [List.filter_filter]
  refine List.filter_congr fun r _ ↦ ?_
  by_cases h : key r = k
  · simp [h, hk]
  · simp [h]

/-- A join, of which the rows of one key are asked for. -/
theorem filter_join {γ : Type*} (f : α → List γ) (rows : List α) :
    ((rows.flatMap fun r ↦ (f r).map fun x ↦ (key r, x)).filter fun x ↦ x.1 = k) =
      (rows.filter fun r ↦ key r = k).flatMap fun r ↦ (f r).map fun x ↦ (k, x) := by
  induction rows with
  | nil => rfl
  | cons r rows ih =>
      rw [List.flatMap_cons, List.filter_append, ih]
      by_cases hr : key r = k
      · simp [hr]
      · simp [hr]

/-- The only row of a key is the first one found. -/
theorem find?_of_nodup {r : α}
    (h : (rows.map key).Nodup) (hr : r ∈ rows) : rows.find? (fun x ↦ key x = key r) = some r := by
  induction rows with
  | nil => cases hr
  | cons x rows ih =>
      rw [List.map_cons, List.nodup_cons] at h
      rcases List.mem_cons.mp hr with rfl | hr
      · exact List.find?_cons_of_pos (decide_eq_true rfl)
      · have hx : key x ≠ key r := fun hx ↦ h.1 (hx ▸ List.mem_map_of_mem hr)
        rw [List.find?_cons_of_neg (by simpa using hx)]
        exact ih h.2 hr

theorem filter_of_nodup (h : (rows.map key).Nodup) (k : κ) :
    rows.filter (fun x ↦ key x = k) = (rows.find? fun x ↦ key x = k).toList := by
  induction rows with
  | nil => rfl
  | cons x rows ih =>
      rw [List.map_cons, List.nodup_cons] at h
      by_cases hx : key x = k
      · have hnil : rows.filter (fun y ↦ key y = k) = [] := by
          rw [List.filter_eq_nil_iff]
          intro y hy hyk
          exact h.1 (hx ▸ of_decide_eq_true hyk ▸ List.mem_map_of_mem hy)
        simp [hx, hnil]
      · simp [hx, ih h.2]

/-! ## Rollups -/

section

variable {M : Type*} [AddCommMonoid M] {m : M} {t : List (κ × M)} {log : List (κ × M)}

/-- `INSERT … ON CONFLICT (key) DO UPDATE`: the amount is added to the row of its key, or is a new
row. -/
def upsert (k : κ) (m : M) : List (κ × M) → List (κ × M)
  | [] => [(k, m)]
  | x :: t => if x.1 = k then (k, x.2 + m) :: t else x :: upsert k m t

/-- The table after some amounts were added. -/
def rollup (log : List (κ × M)) : List (κ × M) := log.foldl (fun t x ↦ upsert x.1 x.2 t) []

/-- The sum of the amounts of a key. -/
def totalOf (log : List (κ × M)) (k : κ) : M := ((log.filter (·.1 = k)).map Prod.snd).sum

theorem rollup_append_singleton (x : κ × M) : rollup (log ++ [x]) = upsert x.1 x.2 (rollup log) := by
  simp [rollup]

theorem keys_upsert : (upsert k m t).map Prod.fst =
    if k ∈ t.map Prod.fst then t.map Prod.fst else t.map Prod.fst ++ [k] := by
  induction t with
  | nil => rfl
  | cons x t ih =>
      rw [upsert]
      by_cases hx : x.1 = k
      · rw [if_pos hx]
        simp [hx]
      · have hk : k ≠ x.1 := fun h ↦ hx h.symm
        rw [if_neg hx, List.map_cons, ih, List.map_cons]
        by_cases hmem : k ∈ t.map Prod.fst
        · rw [if_pos hmem, if_pos (List.mem_cons_of_mem _ hmem)]
        · rw [if_neg hmem, if_neg (List.not_mem_cons_of_ne_of_not_mem hk hmem), List.cons_append]

theorem nodup_upsert (ht : (t.map Prod.fst).Nodup) : ((upsert k m t).map Prod.fst).Nodup := by
  rw [keys_upsert]
  split
  · exact ht
  · next hk => exact List.concat_eq_append ▸ ht.concat hk

theorem dictOf_upsert (ht : (t.map Prod.fst).Nodup) (j : κ) : dictOf (upsert k m t) j =
    if j = k then some ((dictOf t k).elim m (· + m)) else dictOf t j := by
  induction t with
  | nil =>
      rw [upsert, dictOf_cons, dictOf_nil, dictOf_nil, Option.none_or]
      simp [eq_comm]
  | cons x t ih =>
      rw [List.map_cons, List.nodup_cons] at ht
      rw [upsert]
      by_cases hx : x.1 = k
      · -- the rest of the table has no other row of the key
        have hnone : dictOf t k = none := dictOf_eq_none (hx ▸ ht.1)
        rw [if_pos hx]
        simp only [dictOf_cons, hnone, hx]
        by_cases hj : j = k
        · simp [hj, hnone]
        · simp [hj, Ne.symm hj]
      · rw [if_neg hx]
        simp only [dictOf_cons, ih ht.2]
        by_cases hj : j = k
        · simp [hj, hx]
        · simp [hj]

theorem mem_upsert (ht : (t.map Prod.fst).Nodup) {j : κ} {b : M} : (j, b) ∈ upsert k m t ↔
    if j = k then b = (dictOf t k).getD 0 + m else (j, b) ∈ t := by
  rw [mem_iff_dictOf (nodup_upsert ht), dictOf_upsert ht, mem_iff_dictOf ht]
  split
  · cases dictOf t k with
    | none => simp [eq_comm]
    | some n => simp [eq_comm]
  · exact Iff.rfl

theorem nodup_rollup : ((rollup log).map Prod.fst).Nodup := by
  induction log using List.reverseRecOn with
  | nil => exact List.nodup_nil
  | append_singleton log x ih =>
      rw [rollup_append_singleton]
      exact nodup_upsert ih

/-- **A rollup is the grouped sum of what was added to it.** -/
theorem dictOf_rollup : dictOf (rollup log) k =
    dictOf (groupBy Prod.fst (fun l ↦ (l.map Prod.snd).sum) log) k := by
  rw [dictOf_groupBy]
  induction log using List.reverseRecOn with
  | nil => rfl
  | append_singleton log x ih =>
      rw [rollup_append_singleton, dictOf_upsert nodup_rollup]
      by_cases hk : k = x.1
      · subst hk
        rw [if_pos rfl, ih]
        by_cases hnil : (log.filter fun y ↦ y.1 = x.1) = []
        · simp [List.filter_append, hnil]
        · simp [List.filter_append, hnil]
      · have hfilter : (log ++ [x]).filter (fun y ↦ y.1 = k) = log.filter fun y ↦ y.1 = k := by
          simp [Ne.symm hk]
        rw [if_neg hk, ih, hfilter]

theorem mem_rollup {b : M} : (k, b) ∈ rollup log ↔ k ∈ log.map Prod.fst ∧ b = totalOf log k := by
  have hmem : k ∈ log.map Prod.fst ↔ (log.filter fun x ↦ x.1 = k) ≠ [] := by
    rw [List.mem_map, ne_eq, List.filter_eq_nil_iff]
    simp
  rw [mem_iff_dictOf nodup_rollup, dictOf_rollup, dictOf_groupBy, hmem, totalOf]
  split
  · next h => simp [h]
  · next h => rw [Option.some_inj, and_iff_right h, eq_comm]

theorem filter_upsert (p : κ → Bool) : (upsert k m t).filter (fun x ↦ p x.1) =
    if p k then upsert k m (t.filter fun x ↦ p x.1) else t.filter fun x ↦ p x.1 := by
  induction t with
  | nil => cases hp : p k <;> simp [upsert, hp]
  | cons x t ih =>
      rw [upsert]
      by_cases hx : x.1 = k
      · subst hx
        cases hp : p x.1 <;> simp [upsert, hp]
      · rw [if_neg hx, List.filter_cons, ih]
        cases hp : p k <;> cases hpx : p x.1 <;> simp [upsert, hpx, hx]

/-- Rows of some keys that are deleted, or whose amounts were not added. -/
theorem filter_rollup (p : κ → Bool) :
    (rollup log).filter (fun x ↦ p x.1) = rollup (log.filter fun x ↦ p x.1) := by
  induction log using List.reverseRecOn with
  | nil => rfl
  | append_singleton log x ih =>
      rw [rollup_append_singleton, filter_upsert, ih, List.filter_append]
      cases hp : p x.1 with
      | false => simp [hp]
      | true => simp [hp, rollup_append_singleton]

theorem sum_upsert : ((upsert k m t).map Prod.snd).sum = (t.map Prod.snd).sum + m := by
  induction t with
  | nil => simp [upsert]
  | cons x t ih =>
      rw [upsert]
      split
      · simp [add_assoc, add_comm m]
      · simp [ih, add_assoc]

/-- Nothing that was added is lost, and nothing is counted twice. -/
theorem sum_rollup : ((rollup log).map Prod.snd).sum = (log.map Prod.snd).sum := by
  induction log using List.reverseRecOn with
  | nil => rfl
  | append_singleton log x ih =>
      rw [rollup_append_singleton, sum_upsert, ih]
      simp

end

end Lib
