import Mathlib.Data.List.Perm.Basic
import Mathlib.Order.Lattice

namespace RegAtlas

variable {α κ : Type} {before : α → α → Prop} {values list : List α}

/-- The list has each of the values once, in strict order, and there is no other such list. -/
structure StrictlySorted (before : α → α → Prop) (values list : List α) : Prop where
  perm : list.Perm values
  pairwise : list.Pairwise before
  unique : ∀ other : List α, other.Perm values → other.Pairwise before → other = list

section Key

variable [LinearOrder κ] {le : α → α → Bool} (key : α → κ)

theorem pairwise_mergeSort_of_key (hle : ∀ a b, le a b = true ↔ key a ≤ key b) (values : List α) :
    (values.mergeSort le).Pairwise fun a b => key a ≤ key b := by
  refine (List.pairwise_mergeSort (fun a b c => ?_) (fun a b => ?_) values).imp
    fun {a b} => (hle a b).1
  · simp only [hle]
    exact le_trans
  · rw [Bool.or_eq_true, hle, hle]
    exact le_total _ _

/-- Sorting by a key puts values in strict order if the order of their keys puts any two of them in
it. -/
theorem StrictlySorted.of_key (hle : ∀ a b, le a b = true ↔ key a ≤ key b)
    (hasymm : ∀ a b, before a b → ¬before b a) (hnodup : values.Nodup)
    (hbefore : ∀ a ∈ values, ∀ b ∈ values, a ≠ b → key a ≤ key b → before a b) :
    StrictlySorted before values (values.mergeSort le) := by
  have hperm := List.mergeSort_perm values le
  have hsorted : (values.mergeSort le).Pairwise before := by
    refine ((pairwise_mergeSort_of_key key hle values).and (hperm.nodup_iff.2 hnodup)).imp_of_mem ?_
    rintro a b ha hb ⟨hkey, hne⟩
    exact hbefore a (List.mem_mergeSort.1 ha) b (List.mem_mergeSort.1 hb) hne hkey
  refine ⟨hperm, hsorted, fun other hother hpairwise => ?_⟩
  exact List.Perm.eq_of_pairwise (fun a b _ _ hab hba => absurd hba (hasymm a b hab)) hpairwise
    hsorted (hother.trans hperm.symm)

end Key

end RegAtlas
