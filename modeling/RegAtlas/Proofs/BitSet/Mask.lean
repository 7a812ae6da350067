import RegAtlas.BitSet.Lemmas
import RegAtlas.Proofs.Success
import Mathlib.Data.Nat.Bitwise

namespace RegAtlas

namespace Word

variable {v mask : Word} {width : Nat}

theorem within_eq_true_iff : v.within mask = true ↔ v &&& ~~~mask = 0#64 := beq_iff_eq

theorem within_iff : v.within mask = true ↔ ∀ i, v.getLsbD i = true → mask.getLsbD i = true := by
  rw [within_eq_true_iff, BitVec.eq_of_getLsbD_eq_iff]
  simp only [BitVec.getLsbD_and, BitVec.getLsbD_not, BitVec.getLsbD_zero]
  constructor
  · intro h i hi
    simpa [hi, BitVec.lt_of_getLsbD hi] using h i (BitVec.lt_of_getLsbD hi)
  · intro h i hi
    cases hv : v.getLsbD i with
    | false => rfl
    | true => simp [h i hv]

theorem and_eq_of_within (h : v.within mask = true) : v &&& mask = v := by
  apply BitVec.eq_of_getLsbD_eq
  intro i _
  rw [BitVec.getLsbD_and]
  cases hv : v.getLsbD i with
  | false => rw [Bool.false_and]
  | true => rw [within_iff.1 h i hv, Bool.and_self]

theorem nat_lt_two_pow_iff {x n : Nat} : x < 2 ^ n ↔ ∀ i, x.testBit i = true → i < n := by
  constructor
  · intro h i hi
    by_contra hn
    have hle : 2 ^ n ≤ 2 ^ i := Nat.pow_le_pow_right Nat.two_pos (not_lt.1 hn)
    rw [Nat.testBit_lt_two_pow (h.trans_le hle)] at hi
    cases hi
  · intro h
    apply Nat.lt_pow_two_of_testBit
    intro i hi
    exact Bool.eq_false_iff.2 fun ht => absurd (h i ht) (not_lt.2 hi)

theorem lt_two_pow_iff {w n : Nat} {v : BitVec w} :
    v.toNat < 2 ^ n ↔ ∀ i, v.getLsbD i = true → i < n :=
  nat_lt_two_pow_iff

theorem fits_iff : v.fits width = true ↔ v.toNat < 2 ^ width := by
  rw [lt_two_pow_iff]
  apply within_iff.trans
  apply forall_congr'
  intro i
  apply imp_congr_right
  intro hi
  rw [getLsbD_lowMask, decide_eq_true (BitVec.lt_of_getLsbD hi), Bool.true_and, decide_eq_true_iff]

theorem bitLength_le_iff : v.bitLength ≤ width ↔ v.toNat < 2 ^ width := by
  unfold bitLength
  split_ifs with hv
  · rw [hv, zero, BitVec.toNat_zero]
    exact iff_of_true (Nat.zero_le _) (Nat.two_pow_pos _)
  · have hne : v.toNat ≠ 0 := fun h => hv (BitVec.eq_of_toNat_eq h)
    exact Nat.succ_le_iff.trans (Nat.log2_lt hne)

end Word

namespace BitSet

variable {s t : BitSet} {i l : Nat} {v : Word}

theorem contains_eq_false (h : i ∉ s) : s.contains i = false :=
  Bool.eq_false_iff.2 fun hc => h (contains_iff.1 hc)

theorem mem_of_getLsbD_mask (h : s.mask.getLsbD i = true) : i ∈ s := by
  rw [getLsbD_mask] at h
  simp only [Bool.and_eq_true, contains_iff] at h
  exact h.2

theorem mask_lt {width : Nat} (h : ∀ i ∈ s, i < width) : s.mask.toNat < 2 ^ width :=
  Word.lt_two_pow_iff.2 fun i hi => h i (mem_of_getLsbD_mask hi)

theorem within_mask_iff : v.within s.mask = true ↔ ∀ i, v.getLsbD i = true → i ∈ s := by
  apply Word.within_iff.trans
  apply forall_congr'
  intro i
  apply imp_congr_right
  intro hi
  rw [getLsbD_mask, decide_eq_true (BitVec.lt_of_getLsbD hi), Bool.true_and, contains_iff]

theorem lsb?_eq_some_iff : s.lsb? = some l ↔ l ∈ s ∧ ∀ j ∈ s, l ≤ j := by
  obtain ⟨ps, hps⟩ := s
  cases ps with
  | nil => simp [lsb?, mem_def]
  | cons p ps =>
    obtain ⟨hp, -⟩ := List.pairwise_cons.1 hps
    simp only [lsb?, List.head?_cons, Option.some.injEq, mem_def, List.mem_cons, forall_eq_or_imp]
    constructor
    · rintro rfl
      exact ⟨.inl rfl, le_rfl, fun j hj => (hp j hj).le⟩
    · rintro ⟨rfl | hl, hle, -⟩
      · rfl
      · exact absurd (hp l hl) (not_lt.2 hle)

theorem lsb_eq_ok_iff : s.lsb = .ok l ↔ l ∈ s ∧ ∀ j ∈ s, l ≤ j := by
  rw [← lsb?_eq_some_iff, lsb]
  cases s.lsb? <;> simp

theorem lsb?_eq_none_iff : s.lsb? = none ↔ ∀ i, i ∉ s := by
  rw [lsb?, List.head?_eq_none_iff, List.eq_nil_iff_forall_not_mem]
  rfl

theorem exists_lsb? (h : i ∈ s) : ∃ l, s.lsb? = some l := by
  cases hl : s.lsb? with
  | none => exact absurd h (lsb?_eq_none_iff.1 hl i)
  | some l => exact ⟨l, rfl⟩

theorem msb?_eq_some_iff : s.msb? = some l ↔ l ∈ s ∧ ∀ j ∈ s, j ≤ l := by
  obtain ⟨ps, hps⟩ := s
  simp only [msb?, List.getLast?_eq_some_iff, mem_def]
  constructor
  · rintro ⟨before, rfl⟩
    obtain ⟨-, -, hlt⟩ := List.pairwise_append.1 hps
    refine ⟨by simp, fun j hj => ?_⟩
    rcases List.mem_append.1 hj with hj | hj
    · exact (hlt j hj l List.mem_cons_self).le
    · exact (List.mem_singleton.1 hj).le
  · rintro ⟨hl, hle⟩
    obtain ⟨before, last, rfl⟩ :=
      (List.eq_nil_or_concat ps).resolve_left (List.ne_nil_of_mem hl)
    rw [List.concat_eq_append] at *
    obtain ⟨-, -, hlt⟩ := List.pairwise_append.1 hps
    refine ⟨before, ?_⟩
    rcases List.mem_append.1 hl with hb | hb
    · have := hlt l hb last List.mem_cons_self
      have := hle last (by simp)
      omega
    · rw [List.mem_singleton.1 hb]

theorem exists_lsb_ok (h : i ∈ s) : ∃ l, s.lsb = .ok l := by
  obtain ⟨l, hl⟩ := exists_lsb? h
  exact ⟨l, lsb_eq_ok_iff.2 (lsb?_eq_some_iff.1 hl)⟩

theorem extract_eq (hl : s.lsb = .ok l) (v : Word) : s.extract v = .ok ((v &&& s.mask) >>> l) := by
  rw [extract, hl]
  rfl

theorem exists_ends (h : i ∈ s) :
    ∃ l m, s.lsb? = some l ∧ s.msb? = some m ∧ s.spanWidth = m - l + 1 := by
  obtain ⟨l, hl⟩ := exists_lsb? h
  cases hm : s.msb? with
  | none =>
    rw [msb?, List.getLast?_eq_none_iff] at hm
    rw [mem_def, hm] at h
    cases h
  | some m => exact ⟨l, m, hl, rfl, by simp [spanWidth, hl, hm]⟩

theorem spanWidth_pos (h : i ∈ s) : 0 < s.spanWidth := by
  obtain ⟨l, m, -, -, hspan⟩ := exists_ends h
  omega

theorem lt_spanWidth (hl : s.lsb? = some l) (hi : l + i ∈ s) : i < s.spanWidth := by
  obtain ⟨l', m, hl', hm, hspan⟩ := exists_ends hi
  cases hl.symm.trans hl'
  have := (msb?_eq_some_iff.1 hm).2 _ hi
  omega

theorem spanWidth_le {width : Nat} (h : ∀ i ∈ s, i < width) : s.spanWidth ≤ width := by
  unfold spanWidth
  split
  next l m hl hm =>
    have := h m (msb?_eq_some_iff.1 hm).1
    omega
  next => exact Nat.zero_le _

theorem mem_unpositioned : i ∈ s.unpositioned ↔ ∃ l, s.lsb? = some l ∧ i + l ∈ s := by
  rw [unpositioned, mem_shiftRight]
  cases hl : s.lsb? with
  | none => simp [lsb?_eq_none_iff.1 hl]
  | some l => simp

theorem isEmpty_iff : s.isEmpty = true ↔ ∀ i, i ∉ s := by
  rw [isEmpty, List.isEmpty_iff, List.eq_nil_iff_forall_not_mem]
  rfl

theorem isEmpty_diff_iff : (s.diff t).isEmpty = true ↔ ∀ i ∈ s, i ∈ t := by
  simp only [isEmpty_iff, mem_diff, not_and, not_not]

theorem ofList?_eq_ok_iff {ps : List Nat} :
    ofList? ps = .ok s ↔ (∀ p ∈ ps, p < wordSize) ∧ s = ofPositions ps := by
  unfold ofList?
  cases hf : ps.find? (wordSize ≤ ·) with
  | none =>
    have hlt : ∀ p ∈ ps, p < wordSize := by simpa using hf
    exact ⟨fun h => ⟨hlt, (Except.ok.inj h).symm⟩, fun h => congrArg _ h.2.symm⟩
  | some p =>
    have hp : wordSize ≤ p := by simpa using List.find?_some hf
    simp only [reduceCtorEq, false_iff]
    exact fun h => absurd (h.1 p (List.mem_of_find?_eq_some hf)) (not_lt.2 hp)

theorem make_eq_ok_iff {lsb width : Nat} {r : BitRange} :
    BitRange.make lsb width = .ok r ↔
      r.lsb = lsb ∧ r.width = width ∧ lsb + width ≤ wordSize := by
  obtain ⟨l, w, hw⟩ := r
  by_cases h0 : width = 0
  · simp only [BitRange.make, h0, dif_pos, reduceCtorEq, false_iff]
    omega
  · by_cases hm : lsb + width - 1 < wordSize
    · simp only [BitRange.make, BitRange.msb, h0, hm, dif_neg, not_false_eq_true, if_true,
        Except.ok.injEq, BitRange.mk.injEq]
      omega
    · simp only [BitRange.make, BitRange.msb, h0, hm, dif_neg, not_false_eq_true, if_false,
        reduceCtorEq, false_iff]
      omega

theorem mem_ofRange_iff {r : BitRange} : i ∈ ofRange r ↔ r.lsb ≤ i ∧ i < r.lsb + r.width := by
  have := r.width_pos
  rw [mem_ofRange, BitRange.msb]
  omega

theorem ofSpan_zero_eq_ok_iff {width : Nat} :
    ofSpan 0 width = .ok s ↔ 1 ≤ width ∧ width ≤ wordSize ∧ ∀ i, i ∈ s ↔ i < width := by
  rw [ofSpan, Success.map_eq_ok]
  constructor
  · rintro ⟨r, hr, rfl⟩
    obtain ⟨hl, rfl, hw⟩ := make_eq_ok_iff.1 hr
    refine ⟨r.width_pos, by omega, fun i => ?_⟩
    rw [mem_ofRange_iff, hl]
    omega
  · rintro ⟨h1, hw, hs⟩
    refine ⟨⟨0, width, h1⟩, make_eq_ok_iff.2 ⟨rfl, rfl, by omega⟩, ext_mem fun i => ?_⟩
    rw [mem_ofRange_iff, hs]
    simp

theorem ofSpan_zero_eq_error_iff {width : Nat} {e : BitError} :
    ofSpan 0 width = .error e ↔ (width = 0 ∧ e = .emptyRange 0 width) ∨
      (wordSize < width ∧ e = .positionTooLarge (min (width - 1) maxPosition)) := by
  rw [ofSpan, Success.map_eq_error]
  by_cases h0 : width = 0
  · subst h0
    simp [BitRange.make, eq_comm]
  · have hmsb : width - 1 < wordSize ↔ ¬wordSize < width := by omega
    by_cases hm : wordSize < width
    · simp [BitRange.make, BitRange.msb, h0, hmsb, hm, eq_comm]
    · simp [BitRange.make, BitRange.msb, h0, hmsb, hm]

end BitSet

end RegAtlas
