import RegAtlas.Table.Basic

namespace RegAtlas.Table

variable {κ α β : Type} [Ord κ]

theorem compare_beq_eq [Std.LawfulEqOrd κ] {a b : κ} : (compare a b == .eq) = true ↔ a = b := by
  rw [beq_iff_eq, Std.LawfulEqCmp.compare_eq_iff_eq]

theorem ne_of_compare_lt [Std.LawfulEqOrd κ] {a b : κ} (h : compare a b = .lt) : a ≠ b := by
  rintro rfl
  rw [@Std.ReflCmp.compare_self κ compare _ a] at h
  cases h

theorem ne_of_compare_gt [Std.LawfulEqOrd κ] {a b : κ} (h : compare a b = .gt) : a ≠ b := by
  rintro rfl
  rw [@Std.ReflCmp.compare_self κ compare _ a] at h
  cases h

@[simp] theorem get?_empty {k : κ} : (empty : Table κ α).get? k = none := rfl

theorem find?_insertEntry [Std.LawfulEqOrd κ] [DecidableEq κ] (k k' : κ) (v : α)
    (es : List (κ × α)) :
    ((insertEntry k v es).find? fun e => compare k' e.1 == .eq).map Prod.snd =
      if k' = k then some v else (es.find? fun e => compare k' e.1 == .eq).map Prod.snd := by
  have eq_iff (a b : κ) := compare_beq_eq (a := a) (b := b)
  induction es with
  | nil => simp only [insertEntry, List.find?_cons, List.find?_nil]; grind
  | cons x xs ih =>
    simp only [insertEntry]
    split
    next => simp only [List.find?_cons]; grind
    next heq =>
      have := Std.LawfulEqCmp.eq_of_compare heq
      simp only [List.find?_cons]
      grind
    next hgt =>
      have := ne_of_compare_gt hgt
      simp only [List.find?_cons]
      grind

theorem mem_entries_iff [Std.LawfulEqOrd κ] {t : Table κ α} {k : κ} {v : α} :
    (k, v) ∈ t.entries ↔ t.get? k = some v := by
  obtain ⟨es, hes⟩ := t
  simp only [get?]
  induction es with
  | nil => simp
  | cons x xs ih =>
    obtain ⟨hx, hxs⟩ := List.pairwise_cons.1 hes
    obtain ⟨k', v'⟩ := x
    rw [List.mem_cons, ih hxs, List.find?_cons]
    by_cases h : k = k'
    · subst h
      have hnone : (xs.find? fun e => compare k e.1 == .eq) = none := by
        refine List.find?_eq_none.2 fun e he => ?_
        simp [hx e he]
      simp [hnone, eq_comm]
    · have : (compare k k' == Ordering.eq) = false := by
        rw [Bool.eq_false_iff]
        exact fun hc => h (compare_beq_eq.1 hc)
      simp [this, h]

section

variable [Std.TransOrd κ] [Std.LawfulEqOrd κ] {t u : Table κ α} {k k' : κ} {v : α}

theorem get?_insert [DecidableEq κ] :
    (t.insert k v).get? k' = if k' = k then some v else t.get? k' :=
  find?_insertEntry k k' v t.entries

theorem ext_get? (h : ∀ k, t.get? k = u.get? k) : t = u := by
  have hmem (e : κ × α) : e ∈ t.entries ↔ e ∈ u.entries := by
    rw [mem_entries_iff (k := e.1) (v := e.2), mem_entries_iff (k := e.1) (v := e.2), h]
  obtain ⟨es, hes⟩ := t
  obtain ⟨fs, hfs⟩ := u
  have ne {a b : κ × α} (h : compare a.1 b.1 = .lt) : a ≠ b :=
    fun he => ne_of_compare_lt h (congrArg Prod.fst he)
  have hperm : es.Perm fs := (List.perm_ext_iff_of_nodup (hes.imp ne) (hfs.imp ne)).2 hmem
  have : es = fs := by
    refine List.Perm.eq_of_pairwise (fun a b _ _ hab hba => ?_) hes hfs hperm
    rw [Std.OrientedCmp.gt_of_lt hba] at hab
    cases hab
  subst this
  rfl

end

end RegAtlas.Table
