import RegAtlas.Proofs.Table.Pointwise
import Mathlib.Data.List.Perm.Basic

namespace RegAtlas.Table

variable {κ α : Type} [DecidableEq κ] {k : κ} {v : α} {ps : List (κ × α)}

/-- The pairs whose key does not come again. -/
def kept : List (κ × α) → List (κ × α)
  | [] => []
  | p :: ps => if p.1 ∈ ps.map Prod.fst then kept ps else p :: kept ps

/-- The pairs that are written over, since their key comes again. -/
def lost : List (κ × α) → List (κ × α)
  | [] => []
  | p :: ps => if p.1 ∈ ps.map Prod.fst then p :: lost ps else lost ps

theorem mem_keys_kept_iff : k ∈ (kept ps).map Prod.fst ↔ k ∈ ps.map Prod.fst := by
  induction ps with
  | nil => rfl
  | cons p ps ih =>
    rw [kept]
    split
    next hp =>
      rw [ih, List.map_cons, List.mem_cons]
      refine (or_iff_right_of_imp ?_).symm
      rintro rfl
      exact hp
    next => rw [List.map_cons, List.map_cons, List.mem_cons, List.mem_cons, ih]

theorem nodup_keys_kept : ((kept ps).map Prod.fst).Nodup := by
  induction ps with
  | nil => exact .nil
  | cons p ps ih =>
    rw [kept]
    split
    next => exact ih
    next hp => exact List.nodup_cons.2 ⟨mem_keys_kept_iff.not.2 hp, ih⟩

theorem kept_append_lost_perm : (kept ps ++ lost ps).Perm ps := by
  induction ps with
  | nil => rfl
  | cons p ps ih =>
    rw [kept, lost]
    split
    next => exact List.perm_middle.trans (ih.cons p)
    next => exact ih.cons p

theorem mem_of_mem_kept {p : κ × α} (h : p ∈ kept ps) : p ∈ ps :=
  kept_append_lost_perm.subset (List.mem_append_left _ h)

theorem kept_of_nodup (h : (ps.map Prod.fst).Nodup) : kept ps = ps := by
  induction ps with
  | nil => rfl
  | cons p ps ih =>
    rw [List.map_cons, List.nodup_cons] at h
    rw [kept, if_neg h.1, ih h.2]

theorem Pointwise.kept {β : Type} {R : κ → α → β → Prop} {qs : List (κ × β)}
    (h : Pointwise R ps qs) : Pointwise R (kept ps) (kept qs) := by
  induction h with
  | nil => exact .nil
  | @cons p q ps qs hpq hrest ih =>
    have hkeys : qs.map Prod.fst = ps.map Prod.fst := Pointwise.keys_eq hrest
    rw [Table.kept, Table.kept, hkeys, hpq.1]
    split
    next => exact ih
    next => exact .cons hpq ih

variable [Ord κ] [Std.TransOrd κ] [Std.LawfulEqOrd κ]

theorem get?_foldl_insert (t : Table κ α) :
    (ps.foldl (fun t p => t.insert p.1 p.2) t).get? k = some v ↔
      (k, v) ∈ kept ps ∨ k ∉ ps.map Prod.fst ∧ t.get? k = some v := by
  induction ps generalizing t with
  | nil => simp [kept]
  | cons p ps ih =>
    rw [List.foldl_cons, ih, get?_insert, kept, List.map_cons, List.mem_cons, not_or]
    by_cases hp : p.1 ∈ ps.map Prod.fst
    · rw [if_pos hp]
      refine or_congr_right ?_
      by_cases hk : k = p.1
      · subst hk
        simp [hp]
      · simp [hk]
    · rw [if_neg hp, List.mem_cons]
      by_cases hk : k = p.1
      · subst hk
        simp [hp, Prod.ext_iff, eq_comm, or_comm]
      · simp [hk, Prod.ext_iff]

theorem get?_ofList_eq_some_iff : (ofList ps).get? k = some v ↔ (k, v) ∈ kept ps := by
  rw [ofList, get?_foldl_insert, get?_empty]
  simp

theorem entries_ofList_perm : (ofList ps).entries.Perm (kept ps) := by
  refine (List.perm_ext_iff_of_nodup entries_nodup (nodup_keys_kept.of_map _)).2 fun e => ?_
  rw [← get?_ofList_eq_some_iff]
  exact mem_entries_iff

theorem Pointwise.filledBy_kept {β : Type} {R : κ → α → β → Prop} {qs : List (κ × β)}
    (h : Pointwise R ps qs) : FilledBy R (Table.kept ps) (ofList qs) where
  has p hp := by
    obtain ⟨q, hq, hkey, hR⟩ := exists_of_forall₂_left h.kept hp
    exact ⟨q.2, get?_ofList_eq_some_iff.2 (hkey ▸ hq), hR⟩
  only k b hk := by
    obtain ⟨p, hp, hkey, hR⟩ := exists_of_forall₂_right h.kept (get?_ofList_eq_some_iff.1 hk)
    cases hkey
    exact ⟨p.2, hp, hR⟩

end RegAtlas.Table
