import Mathlib.Data.List.Dedup
import Mathlib.Data.List.DropRight
import Mathlib.Data.String.Basic
import Adapta.Lib.Best
import Adapta.Lib.KeySort

/-!
# The methods of a path

A request with a method that its path does not serve gets a 405, and `http_exception_handler` of
`adapta/api/app.py` lists the methods that the path serves in the header `Allow`.  They are read
from the path table of the OpenAPI document by `_allowed_methods`: a template matches a path
segment by segment, and of the templates that match, those with the most literal segments count.
Where none matches the list is empty, and the handler keeps the `Allow` of the framework.

The list is sorted, and the order of the table does not matter (`allowedMethods_spec`).
-/

namespace Adapta.Api

open Lib

/-- The paths of the document: templates, each with the keys of its item. -/
abbrev PathTable := List (List Char × List String)

/-- `_HTTP_METHODS`. -/
def httpMethods : List String := ["DELETE", "GET", "PATCH", "POST", "PUT"]

/-- `path.rstrip("/").split("/")`. -/
def segments (path : List Char) : List (List Char) :=
  (path.rdropWhile (· = '/')).splitOn '/'

/-- A segment of a template in braces. -/
def isParameter (part : List Char) : Bool := part.head? = some '\x7b' && part.getLast? = some '\x7d'

/-- The template has as many segments as the path, each the same or in braces. -/
def matchesPath (template path : List Char) : Bool :=
  (segments template).length = (segments path).length &&
    ((segments template).zip (segments path)).all fun x ↦ x.1 = x.2 || isParameter x.1

/-- The number of segments that are the same. -/
def literalHits (template path : List Char) : Nat :=
  ((segments template).zip (segments path)).countP fun x ↦ x.1 = x.2

section

variable (upper : String → String) (paths : PathTable) (path : List Char)

/-- The methods of an item. -/
def itemMethods (item : List String) : List String :=
  (item.map upper).filter (httpMethods.contains ·)

/-- The loop over the table, from `best` and `methods` on. -/
def bestMethods : Int × List String :=
  paths.foldl (fun acc x ↦
    if matchesPath x.1 path then
      collect (fun x : List Char × List String ↦ (literalHits x.1 path : Int))
        (fun x ↦ itemMethods upper x.2) acc x
    else acc) (-1, [])

/-- `_allowed_methods`. -/
def allowedMethods : List String :=
  (bestMethods upper paths path).2.dedup.insertionSort (· ≤ ·)

end

variable {upper : String → String} {paths : PathTable} {path : List Char} {m : String}

theorem mem_itemMethods {item : List String} :
    m ∈ itemMethods upper item ↔ m ∈ httpMethods ∧ ∃ key ∈ item, upper key = m := by
  rw [itemMethods, List.mem_filter, List.mem_map, List.contains_iff_mem]
  exact and_comm

theorem mem_bestMethods :
    m ∈ (bestMethods upper paths path).2 ↔
      ∃ x ∈ paths, matchesPath x.1 path = true ∧ m ∈ itemMethods upper x.2 ∧
        ∀ y ∈ paths, matchesPath y.1 path = true →
          literalHits y.1 path ≤ literalHits x.1 path := by
  have hfilter : bestMethods upper paths path =
      (paths.filter fun x ↦ matchesPath x.1 path).foldl
        (collect (fun x : List Char × List String ↦ (literalHits x.1 path : Int))
          fun x ↦ itemMethods upper x.2) (-1, []) := by
    rw [bestMethods, List.foldl_filter]
  rw [hfilter, mem_foldl_collect_of_lt (fun x _ ↦ by omega)]
  simp only [List.mem_filter, and_assoc, and_imp, Int.ofNat_le]

/-- A path counts as its segments. -/
theorem bestMethods_congr {path' : List Char} (h : segments path = segments path') :
    bestMethods upper paths path = bestMethods upper paths path' := by
  have hmatches : (matchesPath · path) = (matchesPath · path') := by
    funext template
    rw [matchesPath, matchesPath, h]
  have hhits : (literalHits · path) = (literalHits · path') := by
    funext template
    rw [literalHits, literalHits, h]
  rw [bestMethods, bestMethods]
  congr 1
  funext acc x
  rw [congrFun hmatches x.1]
  split
  · exact congrArg (fun f ↦ collect (fun x : List Char × List String ↦ (f x.1 : Int))
      (fun x ↦ itemMethods upper x.2) acc x) hhits
  · rfl

/-- **The methods that a path serves.**  They are sorted, each once; they are the methods of the
templates that match the path with as many literal segments as any; and they do not depend on the
order of the table, nor on slashes at the end of the path. -/
theorem allowedMethods_spec (upper : String → String) (paths : PathTable) (path : List Char) :
    (allowedMethods upper paths path).Pairwise (· < ·) ∧
    (∀ m, m ∈ allowedMethods upper paths path ↔
      m ∈ httpMethods ∧ ∃ x ∈ paths, matchesPath x.1 path = true ∧
        (∃ key ∈ x.2, upper key = m) ∧ ∀ y ∈ paths, matchesPath y.1 path = true →
          literalHits y.1 path ≤ literalHits x.1 path) ∧
    (∀ paths', paths.Perm paths' →
      allowedMethods upper paths' path = allowedMethods upper paths path) ∧
    ∀ n, allowedMethods upper paths (path ++ List.replicate n '/') =
      allowedMethods upper paths path := by
  have hmem : ∀ m, m ∈ allowedMethods upper paths path ↔
      m ∈ httpMethods ∧ ∃ x ∈ paths, matchesPath x.1 path = true ∧
        (∃ key ∈ x.2, upper key = m) ∧ ∀ y ∈ paths, matchesPath y.1 path = true →
          literalHits y.1 path ≤ literalHits x.1 path := by
    intro m
    rw [allowedMethods, List.mem_insertionSort, List.mem_dedup, mem_bestMethods]
    simp only [mem_itemMethods]
    constructor
    · rintro ⟨x, hx, hmatch, ⟨hm, hkey⟩, hbest⟩
      exact ⟨hm, x, hx, hmatch, hkey, hbest⟩
    · rintro ⟨hm, x, hx, hmatch, hkey, hbest⟩
      exact ⟨x, hx, hmatch, ⟨hm, hkey⟩, hbest⟩
  refine ⟨?_, hmem, ?_, ?_⟩
  · have hnodup : (allowedMethods upper paths path).Nodup :=
      (List.perm_insertionSort _ _).nodup_iff.mpr (List.nodup_dedup _)
    have hle : (allowedMethods upper paths path).Pairwise (· ≤ ·) := pairwise_sort id _
    exact List.Pairwise.imp₂ (fun _ _ ↦ lt_of_le_of_ne) hle hnodup
  · intro paths' hperm
    -- the same methods are collected, perhaps in another order
    have hsame : (bestMethods upper paths' path).2.dedup.Perm
        (bestMethods upper paths path).2.dedup := by
      apply (List.perm_ext_iff_of_nodup (List.nodup_dedup _) (List.nodup_dedup _)).mpr
      intro m
      rw [List.mem_dedup, List.mem_dedup, mem_bestMethods, mem_bestMethods]
      simp only [hperm.mem_iff]
    exact sort_eq_of_perm (fun _ _ _ _ h ↦ h) hsame
  · intro n
    have hsegments : segments (path ++ List.replicate n '/') = segments path := by
      rw [segments, segments]
      congr 1
      induction n with
      | zero => rw [List.replicate_zero, List.append_nil]
      | succ n ih =>
          rw [List.replicate_succ', ← List.append_assoc, List.rdropWhile_concat_pos _ _ _ (by simp)]
          exact ih
    rw [allowedMethods, allowedMethods, bestMethods_congr hsegments]

/-- A literal segment counts more than a parameter. -/
example : allowedMethods id
    [("/d/\x7bid\x7d".toList, ["DELETE", "GET"]), ("/d/new".toList, ["POST", "summary"])]
    "/d/new/".toList = ["POST"] := by decide

end Adapta.Api
