import Mathlib.Data.List.Nodup
import Mathlib.Data.List.Perm.Basic

/-!
# A table and its mirror

A table of keyed values is mirrored in another store.  Some entries are replaced: in the table
the old ones are removed and the new ones added, in the mirror the new ones are upserted and
the old keys that are not used again removed.  Both steps together keep the stores the same;
what the mirror is like when only its own steps have been made is characterised.
-/

universe u v

namespace Lib

variable {κ : Type u} {β : Type v} [DecidableEq κ]

/-- The entries under other keys. -/
def without (m : List (κ × β)) (keys : List κ) : List (κ × β) := m.filter fun x ↦ x.1 ∉ keys

/-- Entries under keys that are there are replaced. -/
def upsertAll (m new : List (κ × β)) : List (κ × β) := without m (new.map Prod.fst) ++ new

/-- The stores hold the same. -/
def Mirrors (t m : List (κ × β)) : Prop := ∀ x, x ∈ t ↔ x ∈ m

variable {t m new : List (κ × β)} {keys : List κ} {x : κ × β}

theorem mem_without : x ∈ without m keys ↔ x ∈ m ∧ x.1 ∉ keys := by
  rw [without, List.mem_filter, decide_eq_true_eq]

theorem mem_upsertAll : x ∈ upsertAll m new ↔ (x ∈ m ∧ x.1 ∉ new.map Prod.fst) ∨ x ∈ new := by
  rw [upsertAll, List.mem_append, mem_without]

/-- The keys of a mirror stay distinct. -/
theorem nodup_without (h : (m.map Prod.fst).Nodup) : ((without m keys).map Prod.fst).Nodup :=
  (List.filter_sublist.map _).nodup h

theorem nodup_upsertAll (h : (m.map Prod.fst).Nodup) (hnew : (new.map Prod.fst).Nodup) :
    ((upsertAll m new).map Prod.fst).Nodup := by
  rw [upsertAll, List.map_append, List.nodup_append]
  refine ⟨nodup_without h, hnew, ?_⟩
  intro k hk k' hk' heq
  obtain ⟨x, hx, rfl⟩ := List.mem_map.mp hk
  exact (mem_without.mp hx).2 (heq ▸ hk')

/-- Replacing entries in the table and in the mirror. -/
theorem Mirrors.replace (h : Mirrors t m) {old surplus : List κ}
    (hfresh : ∀ x ∈ t, x.1 ∉ old → x.1 ∉ new.map Prod.fst)
    (hsurplus : ∀ k, k ∈ surplus ↔ k ∈ old ∧ k ∉ new.map Prod.fst) :
    Mirrors (without t old ++ new) (without (upsertAll m new) surplus) := by
  intro x
  rw [List.mem_append, mem_without, mem_without, mem_upsertAll, hsurplus, ← h x]
  by_cases hnew : x ∈ new
  · have hkey : x.1 ∈ new.map Prod.fst := List.mem_map_of_mem hnew
    exact iff_of_true (.inr hnew) ⟨.inr hnew, fun hsur ↦ hsur.2 hkey⟩
  · constructor
    · rintro (⟨hx, hold⟩ | hx)
      · exact ⟨.inl ⟨hx, hfresh x hx hold⟩, fun hsur ↦ hold hsur.1⟩
      · exact absurd hx hnew
    · rintro ⟨⟨hx, hkey⟩ | hx, hsur⟩
      · exact .inl ⟨hx, fun hold ↦ hsur ⟨hold, hkey⟩⟩
      · exact absurd hx hnew

/-- An upsert alone leaves the mirror as it should be if and only if it changes nothing. -/
theorem Mirrors.upsertAll_iff (h : Mirrors t m) (ht : (t.map Prod.fst).Nodup) :
    Mirrors t (upsertAll m new) ↔ ∀ x ∈ new, x ∈ t := by
  constructor
  · intro hsame x hx
    exact (hsame x).mpr (mem_upsertAll.mpr (.inr hx))
  · intro hsub x
    rw [mem_upsertAll, ← h x]
    constructor
    · intro hx
      by_cases hkey : x.1 ∈ new.map Prod.fst
      · obtain ⟨y, hy, hyx⟩ := List.mem_map.mp hkey
        rw [List.inj_on_of_nodup_map ht hx (hsub y hy) hyx.symm]
        exact .inr hy
      · exact .inl ⟨hx, hkey⟩
    · rintro (⟨hx, -⟩ | hx)
      · exact hx
      · exact hsub x hx

/-- So does an upsert with a removal. -/
theorem Mirrors.without_upsertAll_iff (h : Mirrors t m) (ht : (t.map Prod.fst).Nodup)
    (hkeys : ∀ k ∈ keys, k ∉ new.map Prod.fst) :
    Mirrors t (without (upsertAll m new) keys) ↔
      (∀ x ∈ new, x ∈ t) ∧ ∀ x ∈ t, x.1 ∉ keys := by
  constructor
  · intro hsame
    constructor
    · intro x hx
      refine (hsame x).mpr (mem_without.mpr ⟨mem_upsertAll.mpr (.inr hx), ?_⟩)
      exact fun hk ↦ hkeys _ hk (List.mem_map_of_mem hx)
    · exact fun x hx ↦ (mem_without.mp ((hsame x).mp hx)).2
  · rintro ⟨hsub, hno⟩ x
    rw [mem_without, ← (h.upsertAll_iff ht).mpr hsub x]
    exact ⟨fun hx ↦ ⟨hx, hno x hx⟩, And.left⟩

end Lib
