import RegAtlas.Proofs.BitSet.Algebra

namespace RegAtlas.BitSet

/-- The ones of the word are positions of the set, counted from `l`. -/
def Places (s : BitSet) (l : Nat) (x : Word) : Prop := ∀ i, x.getLsbD i = true → i + l ∈ s

variable {s : BitSet} {l : Nat} {v x : Word}

theorem getLsbD_mask_of_lt (hl : s.lsb = .ok l) {i : Nat} (hi : i < l) : s.mask.getLsbD i = false :=
  Bool.eq_false_iff.2 fun h =>
    absurd ((lsb_eq_ok_iff.1 hl).2 i (mem_of_getLsbD_mask h)) (not_le.2 hi)

theorem shiftLeft_taken (hl : s.lsb = .ok l) (v : Word) :
    ((v &&& s.mask) >>> l) <<< l = v &&& s.mask := by
  apply BitVec.eq_of_getLsbD_eq
  intro i hi
  rw [BitVec.getLsbD_shiftLeft, BitVec.getLsbD_ushiftRight, BitVec.getLsbD_and, BitVec.getLsbD_and,
    decide_eq_true hi, Bool.true_and]
  by_cases hlt : i < l
  · rw [decide_eq_true hlt, getLsbD_mask_of_lt hl hlt, Bool.not_true, Bool.false_and,
      Bool.and_false]
  · rw [decide_eq_false hlt, Bool.not_false, Bool.true_and, Nat.add_sub_cancel' (not_lt.1 hlt)]

namespace Places

variable (h : s.Places l x)

include h

theorem toNat_shiftLeft (hs : s.InWord) : (x <<< l).toNat = x.toNat * 2 ^ l := by
  rw [BitVec.toNat_shiftLeft, Nat.shiftLeft_eq]
  apply Nat.mod_eq_of_lt
  apply Word.nat_lt_two_pow_iff.2
  intro i hi
  rw [Nat.testBit_mul_two_pow, Bool.and_eq_true, decide_eq_true_iff] at hi
  have hmem := h _ hi.2
  rw [Nat.sub_add_cancel hi.1] at hmem
  exact hs i hmem

theorem shiftRight_shiftLeft (hs : s.InWord) : (x <<< l) >>> l = x := by
  apply BitVec.eq_of_toNat_eq
  rw [BitVec.toNat_ushiftRight, h.toNat_shiftLeft hs, Nat.shiftRight_eq_div_pow,
    Nat.mul_div_cancel _ (Nat.two_pow_pos l)]

theorem mem_of_getLsbD {i : Nat} (hi : (x <<< l).getLsbD i = true) : i ∈ s := by
  rw [BitVec.getLsbD_shiftLeft, Bool.and_eq_true, Bool.and_eq_true, Bool.not_eq_true',
    decide_eq_false_iff_not, not_lt] at hi
  have hmem := h _ hi.2
  rwa [Nat.sub_add_cancel hi.1.2] at hmem

theorem within_mask : (x <<< l) &&& ~~~s.mask = 0#64 :=
  Word.within_eq_true_iff.1 (within_mask_iff.2 fun _ hi => h.mem_of_getLsbD hi)

theorem taken_eq_iff (hs : s.InWord) (hl : s.lsb = .ok l) :
    (v &&& s.mask) >>> l = x ↔ v &&& s.mask = x <<< l := by
  constructor
  · rintro rfl
    exact (shiftLeft_taken hl v).symm
  · intro hv
    rw [hv]
    exact h.shiftRight_shiftLeft hs

omit h in
theorem of_taken (v : Word) : s.Places l ((v &&& s.mask) >>> l) := by
  intro i hi
  rw [BitVec.getLsbD_ushiftRight, BitVec.getLsbD_and, Bool.and_eq_true] at hi
  have hmem := mem_of_getLsbD_mask hi.2
  rwa [Nat.add_comm] at hmem

theorem toNat_lt (hl : s.lsb = .ok l) : x.toNat < 2 ^ s.spanWidth := by
  have hl : s.lsb? = some l := lsb?_eq_some_iff.2 (lsb_eq_ok_iff.1 hl)
  apply Word.lt_two_pow_iff.2
  intro i hi
  have hmem := h i hi
  rw [Nat.add_comm] at hmem
  exact lt_spanWidth hl hmem

end Places

end RegAtlas.BitSet
