import RegAtlas.Table.Lemmas
import Mathlib.Data.List.Nodup
import Mathlib.Data.List.Pairwise

namespace RegAtlas.Table

variable {κ α : Type} [Ord κ]

section Lawful

variable [Std.LawfulEqOrd κ] {t : Table κ α} {v : α}

theorem mem_values_iff : v ∈ t.values ↔ ∃ k, t.get? k = some v := by
  simp only [values, List.mem_map, Prod.exists, exists_eq_right, mem_entries_iff]

theorem forall_values_iff {P : α → Prop} :
    (∀ v ∈ t.values, P v) ↔ ∀ k v, t.get? k = some v → P v := by
  simp only [mem_values_iff]
  exact ⟨fun h k v hk => h v ⟨k, hk⟩, fun h v ⟨k, hk⟩ => h k v hk⟩

theorem forall_entries_iff {P : κ × α → Prop} :
    (∀ e ∈ t.entries, P e) ↔ ∀ k v, t.get? k = some v → P (k, v) := by
  simp only [Prod.forall, mem_entries_iff]

theorem entries_nodup : t.entries.Nodup :=
  t.ascending.imp fun h he => ne_of_compare_lt h (congrArg Prod.fst he)

theorem mem_keys_iff {k : κ} : k ∈ t.keys ↔ ∃ v, t.get? k = some v := by
  simp only [keys, List.mem_map, Prod.exists, exists_and_right, exists_eq_right, mem_entries_iff]

theorem keys_nodup : t.keys.Nodup :=
  List.pairwise_map.2 (t.ascending.imp fun h => ne_of_compare_lt h)

theorem pairwise_entries_iff {R : κ × α → κ × α → Prop} [Std.Symm R] :
    t.entries.Pairwise R ↔
      ∀ k k' v v', t.get? k = some v → t.get? k' = some v' → k ≠ k' → R (k, v) (k', v') := by
  constructor
  · intro h k k' v v' hk hk' hne
    exact h.forall (mem_entries_iff.2 hk) (mem_entries_iff.2 hk') fun he =>
      hne (congrArg Prod.fst he)
  · intro h
    apply entries_nodup.pairwise_of_forall_ne
    intro a ha b hb hne
    have ha : t.get? a.1 = some a.2 := mem_entries_iff.1 ha
    have hb : t.get? b.1 = some b.2 := mem_entries_iff.1 hb
    refine h a.1 b.1 a.2 b.2 ha hb fun hk => hne ?_
    rw [hk, hb] at ha
    exact Prod.ext hk (Option.some.inj ha).symm

theorem pairwise_values_iff {R : α → α → Prop} [Std.Symm R] :
    t.values.Pairwise R ↔
      ∀ k k' v v', t.get? k = some v → t.get? k' = some v' → k ≠ k' → R v v' := by
  have : Std.Symm fun a b : κ × α => R a.2 b.2 := ⟨fun _ _ h => Std.Symm.symm _ _ h⟩
  rw [values, List.pairwise_map]
  exact pairwise_entries_iff (R := fun a b => R a.2 b.2)

theorem eq_of_nodup_map {β : Type} {f : κ × α → β} {k k' : κ} {v' : α}
    (h : (t.entries.map f).Nodup) (hk : t.get? k = some v) (hk' : t.get? k' = some v')
    (he : f (k, v) = f (k', v')) : k = k' :=
  congrArg Prod.fst (List.inj_on_of_nodup_map h (mem_entries_iff.2 hk) (mem_entries_iff.2 hk') he)

end Lawful

section Erase

variable [DecidableEq κ] {t : Table κ α} {k k' : κ} {v : α}

def erase (k : κ) (t : Table κ α) : Table κ α where
  entries := t.entries.filter fun e => e.1 ≠ k
  ascending := t.ascending.filter _

theorem exists_entries_erase [Std.LawfulEqOrd κ] (h : t.get? k = some v) :
    ∃ before after, t.entries = before ++ (k, v) :: after ∧
      (t.erase k).entries = before ++ after := by
  obtain ⟨before, after, he⟩ := List.append_of_mem (mem_entries_iff.2 h)
  have hordered := t.ascending
  rw [he, List.pairwise_append, List.pairwise_cons] at hordered
  obtain ⟨-, ⟨hafter, -⟩, hbefore⟩ := hordered
  refine ⟨before, after, he, ?_⟩
  change t.entries.filter _ = _
  rw [he, List.filter_append, List.filter_cons_of_neg (by simp), List.filter_eq_self.2,
    List.filter_eq_self.2]
  · exact fun e he => decide_eq_true (ne_of_compare_lt (hafter e he)).symm
  · exact fun e he => decide_eq_true (ne_of_compare_lt (hbefore e he _ List.mem_cons_self))

end Erase

section Order

variable [Std.TransOrd κ]

theorem insertEntry_append {k : κ} {v : α} {es : List (κ × α)} (h : ∀ e ∈ es, compare e.1 k = .lt) :
    insertEntry k v es = es ++ [(k, v)] := by
  induction es with
  | nil => rfl
  | cons x xs ih =>
    have hx : compare k x.1 = .gt := Std.OrientedCmp.gt_of_lt (h x List.mem_cons_self)
    simp only [insertEntry, hx, List.cons_append]
    rw [ih fun e he => h e (List.mem_cons_of_mem _ he)]

theorem entries_ofList [Std.LawfulEqOrd κ] {es : List (κ × α)}
    (h : es.Pairwise fun a b => compare a.1 b.1 = .lt) : (ofList es).entries = es := by
  suffices ∀ (t : Table κ α), (∀ a ∈ t.entries, ∀ b ∈ es, compare a.1 b.1 = .lt) →
      (es.foldl (fun t e => t.insert e.1 e.2) t).entries = t.entries ++ es from
    this empty fun _ h => absurd h List.not_mem_nil
  induction es with
  | nil => intro t _; simp
  | cons x xs ih =>
    intro t ht
    obtain ⟨hx, hxs⟩ := List.pairwise_cons.1 h
    have hins : (t.insert x.1 x.2).entries = t.entries ++ [x] :=
      insertEntry_append fun e he => ht e he x List.mem_cons_self
    rw [List.foldl_cons, ih hxs, hins, List.append_assoc, List.singleton_append]
    intro a ha b hb
    rw [hins, List.mem_append, List.mem_singleton] at ha
    rcases ha with ha | rfl
    · exact ht a ha b (List.mem_cons_of_mem _ hb)
    · exact hx b hb

end Order

end RegAtlas.Table
