import RegAtlas.BitSet.Basic

namespace RegAtlas.BitSet

variable {s t : BitSet} {b i : Nat}

theorem mem_def : i ∈ s ↔ i ∈ s.positions := Iff.rfl

@[simp] theorem contains_iff : s.contains i = true ↔ i ∈ s := by simp [contains, mem_def]

@[simp] theorem not_mem_empty : i ∉ empty := by simp [mem_def, empty]

@[simp] theorem mem_insert : i ∈ insert b s ↔ i = b ∨ i ∈ s := mem_insertPosition

@[simp] theorem mem_ofPositions {ps : List Nat} : i ∈ ofPositions ps ↔ i ∈ ps := by
  induction ps with
  | nil => simp [ofPositions]
  | cons p ps ih =>
    rw [List.mem_cons, ← ih]
    exact mem_insert

@[simp] theorem mem_ofRange {r : BitRange} : i ∈ ofRange r ↔ r.lsb ≤ i ∧ i ≤ r.msb :=
  BitRange.mem_positions

@[simp] theorem mem_below {width : Nat} {p : Nat → Bool} :
    i ∈ below width p ↔ i < width ∧ p i = true := by
  simp [mem_def, below]

@[simp] theorem mem_filter {p : Nat → Bool} : i ∈ s.filter p ↔ i ∈ s ∧ p i = true := by
  simp [mem_def, filter]

@[simp] theorem mem_inter : i ∈ s.inter t ↔ i ∈ s ∧ i ∈ t := by simp [inter]

@[simp] theorem mem_diff : i ∈ s.diff t ↔ i ∈ s ∧ i ∉ t := by
  rw [← contains_iff (s := t), Bool.not_eq_true, ← Bool.not_eq_true']
  exact mem_filter

@[simp] theorem mem_union : i ∈ s.union t ↔ i ∈ s ∨ i ∈ t := by
  obtain ⟨ps, hps⟩ := s
  simp only [union, mem_def (s := ⟨ps, hps⟩)]
  clear hps
  induction ps with
  | nil => simp
  | cons p ps ih => simp [ih, or_assoc]

@[simp] theorem mem_shiftRight {amount : Nat} : i ∈ s.shiftRight amount ↔ i + amount ∈ s := by
  simp only [mem_def, shiftRight, List.mem_map, List.mem_filter, decide_eq_true_eq]
  constructor
  · rintro ⟨j, ⟨hj, hle⟩, rfl⟩
    rwa [Nat.sub_add_cancel hle]
  · intro h
    exact ⟨i + amount, ⟨h, Nat.le_add_left _ _⟩, Nat.add_sub_cancel _ _⟩

@[simp] theorem mem_raise {amount : Nat} : i ∈ s.raise amount ↔ amount ≤ i ∧ i - amount ∈ s := by
  simp only [mem_def, raise, List.mem_map]
  constructor
  · rintro ⟨j, hj, rfl⟩
    exact ⟨Nat.le_add_left _ _, by rwa [Nat.add_sub_cancel]⟩
  · rintro ⟨hle, h⟩
    exact ⟨i - amount, h, Nat.sub_add_cancel hle⟩

theorem ext_mem (h : ∀ i, i ∈ s ↔ i ∈ t) : s = t := by
  obtain ⟨xs, hx⟩ := s
  obtain ⟨ys, hy⟩ := t
  have hperm : xs.Perm ys :=
    (List.perm_ext_iff_of_nodup (hx.imp Nat.ne_of_lt) (hy.imp Nat.ne_of_lt)).2 h
  have : xs = ys :=
    List.Perm.eq_of_pairwise (fun _ _ _ _ h h' => absurd h (Nat.lt_asymm h')) hx hy hperm
  subst this
  rfl

theorem getLsbD_mask : s.mask.getLsbD i = (decide (i < 64) && s.contains i) := by
  have fold (ps : List Nat) (m : Word) :
      (ps.foldl (fun m b => m ||| Word.bit b) m).getLsbD i =
        (m.getLsbD i || (decide (i < 64) && ps.elem i)) := by
    induction ps generalizing m with
    | nil => simp
    | cons p ps ih =>
      rw [List.foldl_cons, ih, BitVec.getLsbD_or, Word.getLsbD_bit]
      by_cases h' : i < 64 <;> simp [h', Bool.or_assoc, Bool.decide_or]
  simpa [mask, contains, Word.zero] using fold s.positions Word.zero

end RegAtlas.BitSet
