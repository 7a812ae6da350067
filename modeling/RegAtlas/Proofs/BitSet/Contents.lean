import RegAtlas.Proofs.BitSet.Canonical
import RegAtlas.Proofs.BitSet.Extract
import Mathlib.Data.Set.Function

namespace RegAtlas.BitSet

variable {s : BitSet} {r : BitRange} {l i : Nat} {v w x : Word}

theorem within_unpositioned_iff (hl : s.lsb = .ok l) :
    x.within s.unpositioned.mask = true ↔ s.Places l x := by
  have hl : s.lsb? = some l := lsb?_eq_some_iff.2 (lsb_eq_ok_iff.1 hl)
  simp only [within_mask_iff, mem_unpositioned, hl, Option.some.injEq, exists_eq_left', Places]

theorem InWord.and_mask_eq_iff (hs : s.InWord) :
    v &&& s.mask = w &&& s.mask ↔ ∀ i ∈ s, v.getLsbD i = w.getLsbD i := by
  constructor
  · intro h i hi
    have hbit := congrArg (fun x : Word => x.getLsbD i) h
    simpa only [BitVec.getLsbD_and, hs.getLsbD_mask_iff.2 hi, Bool.and_true] using hbit
  · intro h
    apply BitVec.eq_of_getLsbD_eq
    intro i _
    rw [BitVec.getLsbD_and, BitVec.getLsbD_and, hs.getLsbD_mask]
    by_cases hi : i ∈ s
    · rw [h i hi]
    · rw [contains_eq_false hi, Bool.and_false, Bool.and_false]

theorem extract_eq_extract_iff (hl : s.lsb = .ok l) :
    s.extract v = s.extract w ↔ v &&& s.mask = w &&& s.mask := by
  rw [extract_eq hl, extract_eq hl, Except.ok.injEq]
  constructor
  · intro h
    rw [← shiftLeft_taken hl v, h, shiftLeft_taken hl w]
  · intro h
    rw [h]

theorem Places.extract_shiftLeft (h : s.Places l x) (hs : s.InWord) (hl : s.lsb = .ok l) :
    s.extract (x <<< l) = .ok x := by
  rw [extract_eq hl, Word.and_eq_of_within (Word.within_eq_true_iff.2 h.within_mask),
    h.shiftRight_shiftLeft hs]

theorem extract_ofRange (r : BitRange) (v : Word) : (ofRange r).extract v = .ok (r.extract v) := by
  rw [extract_eq (lsb_ofRange r), mask_ofRange]
  rfl

theorem exists_range_extract (h : s.isContiguous = true) :
    ∃ r, s.range = .ok r ∧ ∀ v, s.extract v = .ok (r.extract v) := by
  obtain ⟨r, hr⟩ := isContiguous_iff.1 h
  obtain rfl := ranges_eq_singleton_iff.1 hr
  exact ⟨r, range_ok_iff.2 hr, extract_ofRange r⟩

/-- Extraction from the set, whose lowest position is `l`, gives the contents of the set. -/
structure ExtractsContents (s : BitSet) (l : Nat) : Prop where
  lsb : s.lsb = .ok l
  moved_back : ∀ v, ∃ x, s.extract v = .ok x ∧ x <<< l = v &&& s.mask
  inside : ∀ v x, s.extract v = .ok x →
    x.within s.unpositioned.mask = true ∧ x.toNat < 2 ^ s.spanWidth
  eq_iff : ∀ v w, s.extract v = s.extract w ↔ ∀ i ∈ s, v.getLsbD i = w.getLsbD i
  moved_up : ∀ x : Word, x.within s.unpositioned.mask = true →
    (x <<< l).toNat = x.toNat * 2 ^ l ∧ s.extract (x <<< l) = .ok x
  bijection : Set.BijOn s.extract {v | v.within s.mask = true}
    (Except.ok '' {x | x.within s.unpositioned.mask = true})
  contiguous : s.isContiguous = true →
    ∃ r, s.range = .ok r ∧ ∀ v, s.extract v = .ok (r.extract v)

theorem bijOn_extract (hs : s.InWord) (hl : s.lsb = .ok l) :
    Set.BijOn s.extract {v | v.within s.mask = true}
      (Except.ok '' {x | x.within s.unpositioned.mask = true}) := by
  refine ⟨fun v _ => ?_, fun v hv w hw h => ?_, ?_⟩
  · exact ⟨_, (within_unpositioned_iff hl).2 (.of_taken v), (extract_eq hl v).symm⟩
  · calc v = v &&& s.mask := (Word.and_eq_of_within hv).symm
      _ = w &&& s.mask := (extract_eq_extract_iff hl).1 h
      _ = w := Word.and_eq_of_within hw
  · rintro _ ⟨x, hx, rfl⟩
    have hplaces := (within_unpositioned_iff hl).1 hx
    exact ⟨x <<< l, Word.within_eq_true_iff.2 hplaces.within_mask,
      hplaces.extract_shiftLeft hs hl⟩

/-- Every set of positions of a word, with gaps or without, extracts its contents, unless it is
empty. -/
theorem InWord.extractsContents (hs : s.InWord) (hne : s.isEmpty = false) :
    ∃ l, s.ExtractsContents l := by
  have hmem : ∃ i, i ∈ s := by
    rw [← Bool.not_eq_true, isEmpty_iff] at hne
    simpa using hne
  obtain ⟨i, hi⟩ := hmem
  obtain ⟨l, hl⟩ := exists_lsb_ok hi
  refine ⟨l, {
    lsb := hl
    moved_back := fun v => ⟨_, extract_eq hl v, shiftLeft_taken hl v⟩
    inside := fun v x hx => ?_
    eq_iff := fun v w => (extract_eq_extract_iff hl).trans hs.and_mask_eq_iff
    moved_up := fun x hx => ?_
    bijection := bijOn_extract hs hl
    contiguous := exists_range_extract }⟩
  · cases hx.symm.trans (extract_eq hl v)
    have hplaces : s.Places l ((v &&& s.mask) >>> l) := .of_taken v
    exact ⟨(within_unpositioned_iff hl).2 hplaces, hplaces.toNat_lt hl⟩
  · have hplaces := (within_unpositioned_iff hl).1 hx
    exact ⟨hplaces.toNat_shiftLeft hs, hplaces.extract_shiftLeft hs hl⟩

theorem top_and_whole_extractContents :
    (ofPositions [63, 5, 3]).extract 0x8000000000000017#64 = .ok 0x1000000000000000#64 ∧
    (∃ l, (ofPositions [63, 5, 3]).ExtractsContents l) ∧
    ∃ l, (ofPositions (List.range 64)).ExtractsContents l := by
  have htop : (ofPositions [63, 5, 3]).InWord := by decide
  have hwhole : (ofPositions (List.range 64)).InWord := by decide
  exact ⟨by decide, htop.extractsContents (by decide), hwhole.extractsContents (by decide)⟩

end RegAtlas.BitSet
