import RegAtlas.Proofs.Success
import RegAtlas.Proofs.Table.Entries

namespace RegAtlas.Table

variable {κ α β : Type}

theorem exists_of_forall₂_left {R : α → β → Prop} {xs : List α} {ys : List β} {x : α}
    (h : List.Forall₂ R xs ys) (hx : x ∈ xs) : ∃ y ∈ ys, R x y := by
  induction h with
  | nil => cases hx
  | cons hR _ ih =>
    rcases List.mem_cons.1 hx with rfl | hx
    · exact ⟨_, List.mem_cons_self, hR⟩
    · obtain ⟨y, hy, hR⟩ := ih hx
      exact ⟨y, List.mem_cons_of_mem _ hy, hR⟩

theorem exists_of_forall₂_right {R : α → β → Prop} {xs : List α} {ys : List β} {y : β}
    (h : List.Forall₂ R xs ys) (hy : y ∈ ys) : ∃ x ∈ xs, R x y :=
  exists_of_forall₂_left (R := flip R) h.flip hy

theorem exists_of_forall₂_append_cons {R : α → β → Prop} {xs xs' : List α} {x : α} {ys : List β}
    (h : List.Forall₂ R (xs ++ x :: xs') ys) : ∃ as b bs, ys = as ++ b :: bs ∧
      List.Forall₂ R xs as ∧ R x b ∧ List.Forall₂ R xs' bs := by
  induction xs generalizing ys with
  | nil =>
    cases h with
    | cons hx hxs => exact ⟨[], _, _, rfl, .nil, hx, hxs⟩
  | cons a xs ih =>
    cases h with
    | cons ha hxs =>
      obtain ⟨as, b, bs, rfl, has, hb, hbs⟩ := ih hxs
      exact ⟨_ :: as, b, bs, rfl, .cons ha has, hb, hbs⟩

/-- One pair of each list for each key. -/
def Pointwise (R : κ → α → β → Prop) (es : List (κ × α)) (fs : List (κ × β)) : Prop :=
  List.Forall₂ (fun e f => f.1 = e.1 ∧ R e.1 e.2 f.2) es fs

variable {R : κ → α → β → Prop}

theorem Pointwise.keys_eq {es : List (κ × α)} {fs : List (κ × β)} (h : Pointwise R es fs) :
    fs.map Prod.fst = es.map Prod.fst := by
  induction h with
  | nil => rfl
  | cons hef _ ih => rw [List.map_cons, List.map_cons, hef.1, ih]

variable [Ord κ] [Std.LawfulEqOrd κ] {t : Table κ α} {u : Table κ β} {k : κ} {a : α} {b : β}

theorem Pointwise.exists_left (h : Pointwise R t.entries u.entries) (hb : u.get? k = some b) :
    ∃ a, t.get? k = some a ∧ R k a b := by
  obtain ⟨e, he, rfl, hR⟩ := exists_of_forall₂_right h (mem_entries_iff.2 hb)
  exact ⟨e.2, mem_entries_iff.1 he, hR⟩

theorem Pointwise.exists_right (h : Pointwise R t.entries u.entries) (ha : t.get? k = some a) :
    ∃ b, u.get? k = some b ∧ R k a b := by
  obtain ⟨f, hf, rfl, hR⟩ := exists_of_forall₂_left h (mem_entries_iff.2 ha)
  exact ⟨f.2, mem_entries_iff.1 hf, hR⟩

theorem Pointwise.entries_ofList [Std.TransOrd κ] {fs : List (κ × β)}
    (h : Pointwise R t.entries fs) : (ofList fs).entries = fs := by
  have hkeys : (fs.map Prod.fst).Pairwise fun k k' => compare k k' = .lt := by
    rw [h.keys_eq]
    exact List.pairwise_map.2 t.ascending
  exact Table.entries_ofList (List.pairwise_map.1 hkeys)

/-- The pairs fill the table: each has its value in it, and it has no other values. -/
structure FilledBy (R : κ → α → β → Prop) (ps : List (κ × α)) (t : Table κ β) : Prop where
  has : ∀ p ∈ ps, ∃ b, t.get? p.1 = some b ∧ R p.1 p.2 b
  only : ∀ k b, t.get? k = some b → ∃ a, (k, a) ∈ ps ∧ R k a b

namespace FilledBy

variable {γ : Type} {ps : List (κ × α)}

omit [Std.LawfulEqOrd κ] in
theorem empty : FilledBy R [] .empty :=
  ⟨nofun, fun k b hk => by simp at hk⟩

theorem trans {S : κ → β → γ → Prop} {Q : κ → α → γ → Prop} {u : Table κ β} {w : Table κ γ}
    (h : FilledBy R ps u) (hw : Pointwise S u.entries w.entries)
    (hQ : ∀ p ∈ ps, ∀ b c, R p.1 p.2 b → S p.1 b c → Q p.1 p.2 c) : FilledBy Q ps w where
  has p hp := by
    obtain ⟨b, hb, hR⟩ := h.has p hp
    obtain ⟨c, hc, hS⟩ := hw.exists_right hb
    exact ⟨c, hc, hQ p hp b c hR hS⟩
  only k c hc := by
    obtain ⟨b, hb, hS⟩ := hw.exists_left hc
    obtain ⟨a, ha, hR⟩ := h.only k b hb
    exact ⟨a, ha, hQ (k, a) ha b c hR hS⟩

end FilledBy

end RegAtlas.Table
