import RegAtlas.Proofs.BitSet.Mask

namespace RegAtlas

namespace Word

theorem cpop_eq_countP (m : Word) : m.cpop.toNat = (List.range wordSize).countP m.getLsbD := by
  have count (n acc : Nat) : m.cpopNatRec n acc = acc + (List.range n).countP m.getLsbD := by
    induction n generalizing acc with
    | zero => rfl
    | succ n ih =>
      rw [BitVec.cpopNatRec_succ, ih, List.range_succ, List.countP_append, List.countP_singleton]
      cases m.getLsbD n <;> simp [Nat.add_assoc, Nat.add_comm]
  rw [BitVec.toNat_cpop, count, Nat.zero_add]
  rfl

end Word

namespace BitSet

/-- All positions are those of a word. -/
def InWord (s : BitSet) : Prop := ∀ i ∈ s, i < wordSize

instance (s : BitSet) : Decidable s.InWord :=
  inferInstanceAs (Decidable (∀ i ∈ s.positions, i < wordSize))

variable {s t : BitSet} {m : Word} {i l n width : Nat}

theorem inWord_ofMask (m : Word) : (ofMask m).InWord := fun _ hi => (mem_below.1 hi).1

theorem inWord_ofRange {r : BitRange} (h : r.msb < wordSize) : (ofRange r).InWord :=
  fun _ hi => (mem_ofRange.1 hi).2.trans_lt h

theorem mask_ofMask (m : Word) : (ofMask m).mask = m := by
  apply BitVec.eq_of_getLsbD_eq
  intro i hi
  rw [getLsbD_mask, decide_eq_true hi, Bool.true_and, Bool.eq_iff_iff, contains_iff, ofMask,
    mem_below]
  exact and_iff_right hi

theorem mask_eq_zero_of_empty (h : ∀ i, i ∉ s) : s.mask = 0#64 := by
  apply BitVec.eq_of_getLsbD_eq
  intro i _
  rw [getLsbD_mask, contains_eq_false (h i), Bool.and_false, BitVec.getLsbD_zero]

namespace InWord

theorem getLsbD_mask (h : s.InWord) : s.mask.getLsbD i = s.contains i := by
  rw [BitSet.getLsbD_mask, Bool.eq_iff_iff, Bool.and_eq_true, contains_iff]
  exact and_iff_right_of_imp fun hi => decide_eq_true (h i hi)

theorem getLsbD_mask_iff (h : s.InWord) : s.mask.getLsbD i = true ↔ i ∈ s := by
  rw [h.getLsbD_mask, contains_iff]

theorem testBit_mask (h : s.InWord) : s.mask.toNat.testBit i = s.contains i := by
  rw [BitVec.testBit_toNat, h.getLsbD_mask]

theorem ofMask_mask (h : s.InWord) : ofMask s.mask = s := by
  apply ext_mem
  intro i
  rw [ofMask, mem_below, h.getLsbD_mask_iff]
  exact and_iff_right_of_imp (h i)

theorem mask_eq_zero_iff (h : s.InWord) : s.mask = 0#64 ↔ ∀ i, i ∉ s := by
  refine ⟨fun hm i hi => ?_, mask_eq_zero_of_empty⟩
  rw [← h.getLsbD_mask_iff, hm, BitVec.getLsbD_zero] at hi
  cases hi

theorem mask_lt_iff (h : s.InWord) : s.mask.toNat < 2 ^ width ↔ ∀ i ∈ s, i < width := by
  simp only [Word.lt_two_pow_iff, h.getLsbD_mask_iff]

theorem union (hs : s.InWord) (ht : t.InWord) : (s.union t).InWord :=
  fun i hi => (mem_union.1 hi).elim (hs i) (ht i)

theorem inter (hs : s.InWord) : (s.inter t).InWord := fun i hi => hs i (mem_inter.1 hi).1

theorem diff (hs : s.InWord) : (s.diff t).InWord := fun i hi => hs i (mem_diff.1 hi).1

theorem shiftRight (hs : s.InWord) : (s.shiftRight n).InWord := fun i hi =>
  (Nat.le_add_right i n).trans_lt (hs _ (mem_shiftRight.1 hi))

theorem mask_union (hs : s.InWord) (ht : t.InWord) : (s.union t).mask = s.mask ||| t.mask := by
  apply BitVec.eq_of_getLsbD_eq
  intro i _
  rw [BitVec.getLsbD_or, Bool.eq_iff_iff, Bool.or_eq_true, (hs.union ht).getLsbD_mask_iff,
    hs.getLsbD_mask_iff, ht.getLsbD_mask_iff, mem_union]

theorem mask_inter (hs : s.InWord) (ht : t.InWord) : (s.inter t).mask = s.mask &&& t.mask := by
  apply BitVec.eq_of_getLsbD_eq
  intro i _
  rw [BitVec.getLsbD_and, Bool.eq_iff_iff, Bool.and_eq_true, hs.inter.getLsbD_mask_iff,
    hs.getLsbD_mask_iff, ht.getLsbD_mask_iff, mem_inter]

theorem mask_diff (hs : s.InWord) (ht : t.InWord) : (s.diff t).mask = s.mask &&& ~~~t.mask := by
  apply BitVec.eq_of_getLsbD_eq
  intro i hi
  rw [BitVec.getLsbD_and, BitVec.getLsbD_not, decide_eq_true hi, Bool.true_and, Bool.eq_iff_iff,
    Bool.and_eq_true, Bool.not_eq_true', ← Bool.not_eq_true, hs.diff.getLsbD_mask_iff,
    hs.getLsbD_mask_iff, ht.getLsbD_mask_iff, mem_diff]

theorem overlaps_iff (hs : s.InWord) (ht : t.InWord) :
    s.overlaps t = true ↔ s.mask &&& t.mask ≠ 0#64 := by
  rw [← hs.mask_inter ht, ne_eq, hs.inter.mask_eq_zero_iff]
  simp only [overlaps, List.any_eq_true, contains_iff, mem_inter, not_forall, not_not]
  rfl

theorem size_eq (h : s.InWord) : s.size = s.mask.cpop.toNat := by
  have hpositions : (ofMask s.mask).positions = (List.range wordSize).filter s.mask.getLsbD := rfl
  rw [Word.cpop_eq_countP, List.countP_eq_length_filter, ← hpositions, h.ofMask_mask, size]

theorem lsb_ok_iff (h : s.InWord) : s.lsb = .ok l ↔
    s.mask.getLsbD l = true ∧ ∀ i, s.mask.getLsbD i = true → l ≤ i := by
  simp only [h.getLsbD_mask_iff]
  exact lsb_eq_ok_iff

theorem msb_ok_iff (h : s.InWord) : s.msb = .ok l ↔
    s.mask.getLsbD l = true ∧ ∀ i, s.mask.getLsbD i = true → i ≤ l := by
  simp only [h.getLsbD_mask_iff]
  rw [← msb?_eq_some_iff, msb]
  cases s.msb? <;> simp

theorem lsb_error_iff (h : s.InWord) : s.lsb = .error .emptySet ↔ s.mask = 0#64 := by
  rw [h.mask_eq_zero_iff, ← lsb?_eq_none_iff, lsb]
  cases s.lsb? <;> simp

theorem msb_error_iff (h : s.InWord) : s.msb = .error .emptySet ↔ s.mask = 0#64 := by
  have hnone : s.msb? = none ↔ ∀ i, i ∉ s := by
    rw [msb?, List.getLast?_eq_none_iff, List.eq_nil_iff_forall_not_mem]
    rfl
  rw [h.mask_eq_zero_iff, ← hnone, msb]
  cases s.msb? <;> simp

theorem mask_shiftRight (h : s.InWord) : (s.shiftRight n).mask.toNat = s.mask.toNat / 2 ^ n := by
  apply Nat.eq_of_testBit_eq
  intro i
  rw [Nat.testBit_div_two_pow, h.testBit_mask, h.shiftRight.testBit_mask, Bool.eq_iff_iff,
    contains_iff, contains_iff, mem_shiftRight]

theorem mask_unpositioned (h : s.InWord) (hl : s.lsb = .ok l) :
    s.unpositioned.mask.toNat = s.mask.toNat / 2 ^ l := by
  have hl : s.lsb? = some l := lsb?_eq_some_iff.2 (lsb_eq_ok_iff.1 hl)
  rw [unpositioned, hl, Option.getD_some, h.mask_shiftRight]

end InWord

theorem shiftLeft_ok_iff : s.shiftLeft n = .ok t ↔ (∀ i ∈ s, i + n < wordSize) ∧ t = s.raise n := by
  unfold shiftLeft
  cases hf : s.positions.find? fun b => wordSize ≤ b + n with
  | none =>
    have hlt : ∀ i ∈ s, i + n < wordSize := by simpa [mem_def] using hf
    exact ⟨fun h => ⟨hlt, (Except.ok.inj h).symm⟩, fun h => congrArg _ h.2.symm⟩
  | some b =>
    have hb : wordSize ≤ b + n := by simpa using List.find?_some hf
    simp only [reduceCtorEq, false_iff]
    exact fun h => absurd (h.1 b (List.mem_of_find?_eq_some hf)) (not_lt.2 hb)

theorem inWord_raise (h : ∀ i ∈ s, i + n < wordSize) : (s.raise n).InWord := by
  intro i hi
  obtain ⟨hle, hmem⟩ := mem_raise.1 hi
  have := h _ hmem
  omega

theorem InWord.mask_mul_lt_iff (h : s.InWord) :
    s.mask.toNat * 2 ^ n < 2 ^ wordSize ↔ ∀ i ∈ s, i + n < wordSize := by
  simp only [Word.nat_lt_two_pow_iff, Nat.testBit_mul_two_pow, h.testBit_mask, Bool.and_eq_true,
    decide_eq_true_iff, contains_iff]
  constructor
  · intro hlt i hi
    exact hlt (i + n) ⟨Nat.le_add_left n i, by rwa [Nat.add_sub_cancel]⟩
  · rintro hlt i ⟨hle, hmem⟩
    have := hlt _ hmem
    omega

theorem InWord.mask_raise (h : s.InWord) (hlt : ∀ i ∈ s, i + n < wordSize) :
    (s.raise n).mask.toNat = s.mask.toNat * 2 ^ n := by
  apply Nat.eq_of_testBit_eq
  intro i
  rw [Nat.testBit_mul_two_pow, h.testBit_mask, (inWord_raise hlt).testBit_mask, Bool.eq_iff_iff,
    Bool.and_eq_true, decide_eq_true_iff, contains_iff, contains_iff, mem_raise]

theorem complement_ok_iff : s.complement width = .ok t ↔
    (∀ i ∈ s, i < width) ∧ t = below width fun i => !s.contains i := by
  unfold complement
  cases hm : s.msb? with
  | none =>
    have hempty : ∀ i, i ∉ s := by
      rw [msb?, List.getLast?_eq_none_iff, List.eq_nil_iff_forall_not_mem] at hm
      exact hm
    have hbelow : (below width fun i => !s.contains i) = below width fun _ => true :=
      ext_mem fun i => by simp [contains_eq_false (hempty i)]
    rw [hbelow]
    exact ⟨fun h => ⟨fun i hi => absurd hi (hempty i), (Except.ok.inj h).symm⟩,
      fun h => congrArg _ h.2.symm⟩
  | some m =>
    obtain ⟨hmem, hle⟩ := msb?_eq_some_iff.1 hm
    dsimp only
    split
    next hw =>
      simp only [reduceCtorEq, false_iff]
      exact fun h => absurd (h.1 m hmem) (not_lt.2 hw)
    next hw =>
      exact ⟨fun h => ⟨fun i hi => (hle i hi).trans_lt (not_le.1 hw), (Except.ok.inj h).symm⟩,
        fun h => congrArg _ h.2.symm⟩

theorem InWord.mask_complement (h : s.InWord) (hlt : ∀ i ∈ s, i < width) (hw : width ≤ wordSize) :
    (below width fun i => !s.contains i).mask.toNat = 2 ^ width - 1 - s.mask.toNat := by
  have hbelow : (below width fun i => !s.contains i).InWord :=
    fun i hi => (mem_below.1 hi).1.trans_le hw
  apply Nat.eq_of_testBit_eq
  intro i
  rw [Nat.sub_sub, Nat.add_comm 1, Nat.testBit_two_pow_sub_succ (h.mask_lt_iff.2 hlt),
    hbelow.testBit_mask, h.testBit_mask, Bool.eq_iff_iff, contains_iff, mem_below,
    Bool.and_eq_true, decide_eq_true_iff]

/-- What the operations on sets are on masks. -/
structure MaskAlgebra (s t : BitSet) : Prop where
  mask_ofMask : ∀ m : Word, (ofMask m).mask = m ∧ (ofMask m).InWord
  ofMask_mask : ofMask s.mask = s
  union : (s.union t).mask = s.mask ||| t.mask
  inter : (s.inter t).mask = s.mask &&& t.mask
  diff : (s.diff t).mask = s.mask &&& ~~~t.mask
  overlaps : s.overlaps t = true ↔ s.mask &&& t.mask ≠ 0#64
  contains : ∀ i, s.contains i = s.mask.getLsbD i
  size : s.size = s.mask.cpop.toNat
  lsb : ∀ l, s.lsb = .ok l ↔
    s.mask.getLsbD l = true ∧ ∀ i, s.mask.getLsbD i = true → l ≤ i
  msb : ∀ l, s.msb = .ok l ↔
    s.mask.getLsbD l = true ∧ ∀ i, s.mask.getLsbD i = true → i ≤ l
  lsb_empty : s.lsb = .error .emptySet ↔ s.mask = 0#64
  msb_empty : s.msb = .error .emptySet ↔ s.mask = 0#64
  shiftLeft_ok : ∀ n, (∃ u, s.shiftLeft n = .ok u) ↔ s.mask.toNat * 2 ^ n < 2 ^ wordSize
  shiftLeft : ∀ n u, s.shiftLeft n = .ok u → u.mask.toNat = s.mask.toNat * 2 ^ n
  shiftRight : ∀ n, (s.shiftRight n).mask.toNat = s.mask.toNat / 2 ^ n
  complement_ok : ∀ width ≤ wordSize,
    (∃ u, s.complement width = .ok u) ↔ s.mask.toNat < 2 ^ width
  complement : ∀ width ≤ wordSize, ∀ u, s.complement width = .ok u →
    u.mask.toNat = 2 ^ width - 1 - s.mask.toNat
  unpositioned : ∀ l, s.lsb = .ok l → s.unpositioned.mask.toNat = s.mask.toNat / 2 ^ l
  unpositioned_empty : s.mask = 0#64 → s.unpositioned.mask = 0#64

/-- Sets of positions of a word are masks, and each operation on them is the one on masks. -/
theorem InWord.maskAlgebra (hs : s.InWord) (ht : t.InWord) : s.MaskAlgebra t where
  mask_ofMask m := ⟨BitSet.mask_ofMask m, inWord_ofMask m⟩
  ofMask_mask := hs.ofMask_mask
  union := hs.mask_union ht
  inter := hs.mask_inter ht
  diff := hs.mask_diff ht
  overlaps := hs.overlaps_iff ht
  contains _ := hs.getLsbD_mask.symm
  size := hs.size_eq
  lsb _ := hs.lsb_ok_iff
  msb _ := hs.msb_ok_iff
  lsb_empty := hs.lsb_error_iff
  msb_empty := hs.msb_error_iff
  shiftLeft_ok n := by
    simp only [shiftLeft_ok_iff, exists_and_left, exists_eq, and_true, hs.mask_mul_lt_iff]
  shiftLeft n u hu := by
    obtain ⟨hlt, rfl⟩ := shiftLeft_ok_iff.1 hu
    exact hs.mask_raise hlt
  shiftRight _ := hs.mask_shiftRight
  complement_ok width _ := by
    simp only [complement_ok_iff, exists_and_left, exists_eq, and_true, hs.mask_lt_iff]
  complement width hw u hu := by
    obtain ⟨hlt, rfl⟩ := complement_ok_iff.1 hu
    exact hs.mask_complement hlt hw
  unpositioned _ hl := hs.mask_unpositioned hl
  unpositioned_empty hm := mask_eq_zero_of_empty fun i hi => by
    obtain ⟨l, -, hmem⟩ := mem_unpositioned.1 hi
    exact hs.mask_eq_zero_iff.1 hm _ hmem

theorem maskAlgebra_ends : (ofPositions [63, 0]).mask = 0x8000000000000001#64 ∧
    (ofPositions [63, 0]).MaskAlgebra (ofPositions [5, 3]) := by
  have hends : (ofPositions [63, 0]).InWord := by decide
  have hgap : (ofPositions [5, 3]).InWord := by decide
  exact ⟨by decide, hends.maskAlgebra hgap⟩

end BitSet

end RegAtlas
