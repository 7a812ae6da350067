import RegAtlas.CHeader.FuncPack
import RegAtlas.Proofs.CHeader.Codec
import RegAtlas.Proofs.Layout

namespace RegAtlas

def Layout.fieldsMask (l : Layout) : Word :=
  l.fields.values.foldl (fun m f => m ||| f.mask) Word.zero

theorem Layout.getLsbD_fieldsMask {l : Layout} {i : Nat} : l.fieldsMask.getLsbD i = true ↔
    i < 64 ∧ ∃ f ∈ l.fieldsByPosition, i ∈ f.bits := by
  have fold (fs : List Field) (m : Word) :
      (fs.foldl (fun m f => m ||| f.mask) m).getLsbD i = true ↔
        m.getLsbD i = true ∨ i < 64 ∧ ∃ f ∈ fs, i ∈ f.bits := by
    induction fs generalizing m with
    | nil => simp
    | cons f fs ih =>
      rw [List.foldl_cons, ih, BitVec.getLsbD_or, Field.mask, BitSet.getLsbD_mask]
      simp [or_assoc, and_or_left]
  rw [fieldsMask, fold, Word.zero, BitVec.getLsbD_zero]
  simp only [Bool.false_eq_true, false_or, mem_fieldsByPosition_iff]

def Layout.fixedValue (l : Layout) : Word := l.alwaysWrite.elim Word.zero (·.value)

/-- The field has bits, all of them below `width`. -/
def Field.LiesIn (f : Field) (width : Nat) : Prop := (∃ i, i ∈ f.bits) ∧ ∀ i ∈ f.bits, i < width

namespace CHeader.FuncPack

variable {n : Naming} {bitFields : Bool} {l : Layout} {f : Field} {i : Nat}

def shiftOf (f : Field) : Nat := f.bits.lsb?.getD 0

def typeOf (n : Naming) (l : Layout) (f : Field) : MemberType :=
  f.enumeration.elim (.word ((CWord.fitting? f.bits.spanWidth).getD .w64)) fun e =>
    .enumeration (n.enumTag (n.enumBase l e))

def memberOf (n : Naming) (bitFields : Bool) (l : Layout) (f : Field) : Member :=
  ⟨codeName f.name, typeOf n l f, if bitFields then some f.bits.spanWidth else none, f.docs⟩

def packStepOf (f : Field) : PackStep :=
  ⟨s!"{f.name} @ {f.bits.text}", codeName f.name, f.mask, f.unpositionedMask, shiftOf f⟩

def unpackStepOf (n : Naming) (l : Layout) (f : Field) : UnpackStep :=
  ⟨codeName f.name, typeOf n l f, f.mask, shiftOf f⟩

/-- The struct and the statements for a layout whose width and fields are those of some type. -/
def codec (n : Naming) (bitFields : Bool) (l : Layout) : Codec where
  tag := n.structTag l
  packed := (CWord.fitting? l.width).getD .w64
  members := l.fieldsByPosition.map (memberOf n bitFields l)
  fixed := l.alwaysWrite.map fun aw => ⟨aw.bits.mask, aw.value⟩
  packSteps := l.fieldsByPosition.map packStepOf
  unpackSteps := l.fieldsByPosition.map (unpackStepOf n l)

theorem lsb?_eq {width : Nat} (hf : f.LiesIn width) : f.bits.lsb? = some (shiftOf f) := by
  obtain ⟨⟨i, hi⟩, -⟩ := hf
  obtain ⟨l, hl⟩ := BitSet.exists_lsb? hi
  rw [shiftOf, hl, Option.getD_some]

/-- The member for a field keeps the number: if its type is an enumeration, this holds it. -/
def Keeps (cc : Compiler) (n : Naming) (l : Layout) (f : Field) (x : Nat) : Prop :=
  ∀ e, f.enumeration = some e → x < cc.range (n.enumTag (n.enumBase l e))

section Run

variable {p : CWord} {fs : List Field} {r : String → Nat} {val : BitVec p.width} {x : Nat}

theorem getLsbD_packStepOf (hf : f.LiesIn p.width) (hi : i < p.width) :
    ((packStepOf f).run p x val).getLsbD i =
      if f.bits.contains i then x.testBit (i - shiftOf f) else val.getLsbD i :=
  PackStep.getLsbD_run rfl rfl (lsb?_eq hf) hf.2 hi

theorem getLsbD_write_of_free (hfs : ∀ f ∈ fs, f.LiesIn p.width) (hfree : ∀ f ∈ fs, i ∉ f.bits) :
    (write p r (fs.map packStepOf) val).getLsbD i = val.getLsbD i := by
  by_cases hi : i < p.width
  · induction fs generalizing val with
    | nil => rfl
    | cons f fs ih =>
      rw [List.forall_mem_cons] at hfs hfree
      refine (ih hfs.2 hfree.2).trans ((getLsbD_packStepOf hfs.1 hi).trans (if_neg ?_))
      simpa using hfree.1
  · rw [BitVec.getLsbD_of_ge _ _ (not_lt.1 hi), BitVec.getLsbD_of_ge _ _ (not_lt.1 hi)]

theorem getLsbD_write_of_mem (hfs : ∀ f ∈ fs, f.LiesIn p.width)
    (hpair : fs.Pairwise fun f g => ∀ i ∈ f.bits, i ∉ g.bits) (hf : f ∈ fs) (hi : i ∈ f.bits) :
    (write p r (fs.map packStepOf) val).getLsbD i =
      (r (codeName f.name)).testBit (i - shiftOf f) := by
  induction fs generalizing val with
  | nil => cases hf
  | cons g fs ih =>
    rw [List.forall_mem_cons] at hfs
    rw [List.pairwise_cons] at hpair
    rcases List.mem_cons.1 hf with rfl | hf
    · refine (getLsbD_write_of_free hfs.2 fun g hg => hpair.1 g hg i hi).trans ?_
      refine (getLsbD_packStepOf hfs.1 (hfs.1.2 i hi)).trans (if_pos ?_)
      simpa using hi
    · exact ih hfs.2 hpair.2 hf

theorem packStepOf_comm {g : Field} {y : Nat} (hf : f.LiesIn p.width) (hg : g.LiesIn p.width)
    (hfg : ∀ i ∈ f.bits, i ∉ g.bits) :
    (packStepOf g).run p y ((packStepOf f).run p x val) =
      (packStepOf f).run p x ((packStepOf g).run p y val) := by
  apply BitVec.eq_of_getLsbD_eq
  intro i hi
  rw [getLsbD_packStepOf hg hi, getLsbD_packStepOf hf hi, getLsbD_packStepOf hf hi,
    getLsbD_packStepOf hg hi]
  by_cases hif : i ∈ f.bits
  · have hig : ¬g.bits.contains i = true := by simpa using hfg i hif
    rw [if_neg hig, if_neg hig]
  · have hif : ¬f.bits.contains i = true := by simpa using hif
    rw [if_neg hif, if_neg hif]

theorem write_perm (hfs : ∀ f ∈ fs, f.LiesIn p.width)
    (hpair : fs.Pairwise fun f g => ∀ i ∈ f.bits, i ∉ g.bits) {steps : List PackStep}
    (hperm : steps.Perm (fs.map packStepOf)) :
    write p r steps val = write p r (fs.map packStepOf) val := by
  refine (hperm.symm.foldl_eq' (fun s hs t ht z => ?_) val).symm
  obtain ⟨f, hf, rfl⟩ := List.mem_map.1 hs
  obtain ⟨g, hg, rfl⟩ := List.mem_map.1 ht
  by_cases hfg : f = g
  · rw [hfg]
  · have hsymm : Std.Symm fun f g : Field => ∀ i ∈ f.bits, i ∉ g.bits :=
      ⟨fun _ _ h i hi hj => h i hj hi⟩
    exact packStepOf_comm (hfs f hf) (hfs g hg) (hpair.forall hf hg hfg)

end Run

theorem unpackInto_eq {cc : Compiler} {r : String → Nat}
    {val : BitVec (codec n bitFields l).packed.width}
    (hnames : (l.fieldsByPosition.map fun f => codeName f.name).Nodup)
    (hf : f ∈ l.fieldsByPosition) :
    cc.unpackInto (codec n bitFields l) val r (codeName f.name) =
      cc.convert (typeOf n l f)
        ((unpackStepOf n l f).taken (codec n bitFields l).packed val) := by
  have hmembers : (codec n bitFields l).unpackSteps.map UnpackStep.member =
      l.fieldsByPosition.map fun f => codeName f.name := List.map_map ..
  rw [← hmembers] at hnames
  exact Compiler.members_of_mem hnames (List.mem_map_of_mem hf)

/-- What a layout of a built map is known to be. -/
structure Sound (l : Layout) : Prop where
  form : l.form.WellFormed
  nonempty : ∀ f ∈ l.fields.values, ∃ i, i ∈ f.bits

namespace Sound

variable {cc : Compiler} {r r' : String → Nat} {val : BitVec (codec n bitFields l).packed.width}
  (h : Sound l)

include h

theorem fitting : CWord.fitting? l.width = some (codec n bitFields l).packed := by
  have hfit : ∃ p, CWord.fitting? l.width = some p :=
    CWord.exists_fitting h.form.width_pos h.form.width_le
  obtain ⟨p, hp⟩ := hfit
  change _ = some ((CWord.fitting? l.width).getD .w64)
  rw [hp, Option.getD_some]

theorem width_le : l.width ≤ (codec n bitFields l).packed.width :=
  CWord.width_le_of_fitting h.fitting

theorem liesIn_width (hf : f ∈ l.fieldsByPosition) : f.LiesIn l.width := by
  have hf := Layout.mem_fieldsByPosition_iff.1 hf
  exact ⟨h.nonempty f hf, fun i => h.form.bit_lt hf⟩

theorem liesIn (hf : f ∈ l.fieldsByPosition) : f.LiesIn (codec n bitFields l).packed.width :=
  ⟨(h.liesIn_width hf).1, fun i hi => ((h.liesIn_width hf).2 i hi).trans_le h.width_le⟩

theorem getLsbD_fix (hi : i < (codec n bitFields l).packed.width) :
    ((codec n bitFields l).fix val).getLsbD i = l.alwaysWrite.elim (val.getLsbD i) fun aw =>
      if aw.bits.contains i then aw.value.getLsbD i else val.getLsbD i := by
  have hfixed : (codec n bitFields l).fixed =
    l.alwaysWrite.map fun aw => ⟨aw.bits.mask, aw.value⟩ := rfl
  rw [Codec.fix, hfixed]
  cases haw : l.alwaysWrite with
  | none => rfl
  | some aw => exact FixedBits.getLsbD_run rfl (h.form.alwaysWrite_fits aw haw) hi

theorem getLsbD_overwrite_of_field (hf : f ∈ l.fieldsByPosition) (hi : i ∈ f.bits) :
    (cc.overwrite (codec n bitFields l) r val).getLsbD i =
      (r (codeName f.name)).testBit (i - shiftOf f) := by
  rw [cc.overwrite_eq]
  exact getLsbD_write_of_mem (fun f => h.liesIn) (Layout.fieldsByPosition_pairwise h.form) hf hi

theorem getLsbD_overwrite_of_free (hfree : ∀ f ∈ l.fieldsByPosition, i ∉ f.bits) :
    (cc.overwrite (codec n bitFields l) r val).getLsbD i =
      ((codec n bitFields l).fix val).getLsbD i := by
  rw [cc.overwrite_eq]
  exact getLsbD_write_of_free (fun f => h.liesIn) hfree

theorem alwaysWrite_free {aw : AlwaysWrite} (haw : l.alwaysWrite = some aw) (hi : i ∈ aw.bits) :
    ∀ f ∈ l.fieldsByPosition, i ∉ f.bits := by
  intro f hf
  exact h.form.bit_free haw (Layout.mem_fieldsByPosition_iff.1 hf) hi

theorem getLsbD_overwrite_of_alwaysWrite {aw : AlwaysWrite} (haw : l.alwaysWrite = some aw)
    (hi : i ∈ aw.bits) :
    (cc.overwrite (codec n bitFields l) r val).getLsbD i = aw.value.getLsbD i := by
  have hlt : i < (codec n bitFields l).packed.width :=
    (h.form.alwaysWrite_inside aw haw i hi).trans_le h.width_le
  rw [h.getLsbD_overwrite_of_free (h.alwaysWrite_free haw hi), h.getLsbD_fix hlt, haw]
  simp [hi]

theorem getLsbD_overwrite_of_unused (hfree : ∀ f ∈ l.fieldsByPosition, i ∉ f.bits)
    (haw : ∀ aw, l.alwaysWrite = some aw → i ∉ aw.bits) :
    (cc.overwrite (codec n bitFields l) r val).getLsbD i = val.getLsbD i := by
  rw [h.getLsbD_overwrite_of_free hfree]
  by_cases hi : i < (codec n bitFields l).packed.width
  · rw [h.getLsbD_fix hi]
    cases hl : l.alwaysWrite with
    | none => rfl
    | some aw => simp [haw aw hl]
  · rw [BitVec.getLsbD_of_ge _ _ (not_lt.1 hi), BitVec.getLsbD_of_ge _ _ (not_lt.1 hi)]

theorem testBit_taken (hf : f ∈ l.fieldsByPosition)
    (val : BitVec (codec n bitFields l).packed.width) :
    ((unpackStepOf n l f).taken (codec n bitFields l).packed val).testBit i =
      (val.getLsbD (shiftOf f + i) && f.bits.contains (shiftOf f + i)) :=
  UnpackStep.testBit_taken rfl (h.liesIn hf).2

theorem taken_lt (hf : f ∈ l.fieldsByPosition) (val : BitVec (codec n bitFields l).packed.width) :
    (unpackStepOf n l f).taken (codec n bitFields l).packed val < 2 ^ f.bits.spanWidth := by
  apply Nat.lt_pow_two_of_testBit
  intro i hi
  have hout : shiftOf f + i ∉ f.bits := fun hmem =>
    absurd (BitSet.lt_spanWidth (lsb?_eq (h.liesIn_width hf)) hmem) (not_lt.2 hi)
  rw [h.testBit_taken hf, BitSet.contains_eq_false hout, Bool.and_false]

theorem fitting_span (hf : f ∈ l.fieldsByPosition) :
    ∃ p, CWord.fitting? f.bits.spanWidth = some p := by
  obtain ⟨⟨i, hi⟩, hlt⟩ := h.liesIn_width hf
  exact CWord.exists_fitting (BitSet.spanWidth_pos hi)
    ((BitSet.spanWidth_le hlt).trans h.form.width_le)

theorem lsb_eq (hf : f ∈ l.fieldsByPosition) : f.bits.lsb = .ok (shiftOf f) := by
  rw [BitSet.lsb, lsb?_eq (h.liesIn_width hf), Option.elim_some]

theorem wordFor_eq : wordFor l.width = .ok (codec n bitFields l).packed := by
  have hfit : CWord.fitting? l.width = some (codec n bitFields l).packed := h.fitting
  rw [wordFor, hfit, Option.elim_some]

theorem memberType_eq (hf : f ∈ l.fieldsByPosition) : memberType n l f = .ok (typeOf n l f) := by
  unfold memberType typeOf wordFor
  cases f.enumeration with
  | some e => rfl
  | none =>
    obtain ⟨p, hp⟩ := h.fitting_span hf
    simp [hp, Except.map]

theorem exists_extract (hf : f ∈ l.fieldsByPosition)
    (v : BitVec (codec n bitFields l).packed.width) : ∃ value,
      f.extract (v.setWidth 64) = .ok value ∧
        value.toNat = (unpackStepOf n l f).taken (codec n bitFields l).packed v := by
  refine ⟨_, BitSet.extract_eq (h.lsb_eq hf) _, ?_⟩
  apply Nat.eq_of_testBit_eq
  intro i
  rw [h.testBit_taken hf, BitVec.testBit_toNat, BitVec.getLsbD_ushiftRight, BitVec.getLsbD_and,
    BitVec.getLsbD_setWidth, BitSet.getLsbD_mask]
  by_cases hmem : shiftOf f + i ∈ f.bits
  · have hlt : shiftOf f + i < 64 := ((h.liesIn_width hf).2 _ hmem).trans_le h.form.width_le
    rw [decide_eq_true hlt, Bool.true_and, Bool.true_and]
  · rw [BitSet.contains_eq_false hmem, Bool.and_false, Bool.and_false, Bool.and_false]

theorem testBit_unpositionedMask (hf : f ∈ l.fieldsByPosition) :
    f.unpositionedMask.toNat.testBit i = f.bits.contains (shiftOf f + i) := by
  have hlies := h.liesIn_width hf
  rw [BitVec.testBit_toNat, Field.unpositionedMask, Nat.add_comm]
  exact getLsbD_unpositioned (lsb?_eq hlies) fun i hi => (hlies.2 i hi).trans_le h.form.width_le

theorem taken_overwrite (hf : f ∈ l.fieldsByPosition) :
    (unpackStepOf n l f).taken (codec n bitFields l).packed
      (cc.overwrite (codec n bitFields l) r val) =
        r (codeName f.name) &&& f.unpositionedMask.toNat := by
  apply Nat.eq_of_testBit_eq
  intro i
  rw [h.testBit_taken hf, Nat.testBit_and, h.testBit_unpositionedMask hf]
  cases hb : f.bits.contains (shiftOf f + i) with
  | false => rw [Bool.and_false, Bool.and_false]
  | true =>
    rw [h.getLsbD_overwrite_of_field hf (BitSet.contains_iff.1 hb), Nat.add_sub_cancel_left]

theorem taken_and_mask (hf : f ∈ l.fieldsByPosition) :
    (unpackStepOf n l f).taken (codec n bitFields l).packed val &&& f.unpositionedMask.toNat =
      (unpackStepOf n l f).taken (codec n bitFields l).packed val := by
  apply Nat.eq_of_testBit_eq
  intro i
  rw [Nat.testBit_and, h.testBit_taken hf, h.testBit_unpositionedMask hf, Bool.and_assoc,
    Bool.and_self]

theorem getLsbD_fixedValue_of_free (haw : ∀ aw, l.alwaysWrite = some aw → i ∉ aw.bits) :
    l.fixedValue.getLsbD i = false := by
  unfold Layout.fixedValue
  cases hl : l.alwaysWrite with
  | none => exact BitVec.getLsbD_zero
  | some aw => exact Bool.eq_false_iff.2 fun hi => haw aw hl (h.form.alwaysWrite_fits aw hl i hi)

theorem getLsbD_settled_of_field (hf : f ∈ l.fieldsByPosition) (hi : i ∈ f.bits) :
    ((val &&& l.fieldsMask.setWidth _) ||| l.fixedValue.setWidth _).getLsbD i =
      val.getLsbD i := by
  -- A value in the bits of fields, with the always-write value, has the bits of fields as it was.
  have hlt : i < (codec n bitFields l).packed.width := (h.liesIn hf).2 i hi
  have hmask : l.fieldsMask.getLsbD i = true :=
    Layout.getLsbD_fieldsMask.2 ⟨hlt.trans_le CWord.width_le, f, hf, hi⟩
  have hfixed := h.getLsbD_fixedValue_of_free fun aw haw haw_i =>
    h.alwaysWrite_free haw haw_i f hf hi
  rw [BitVec.getLsbD_or, BitVec.getLsbD_and, BitVec.getLsbD_setWidth, BitVec.getLsbD_setWidth,
    hmask, hfixed, decide_eq_true hlt, Bool.and_true, Bool.and_true, Bool.and_false, Bool.or_false]

theorem getLsbD_settled_of_free (hfree : ∀ f ∈ l.fieldsByPosition, i ∉ f.bits)
    (hi : i < (codec n bitFields l).packed.width) :
    ((val &&& l.fieldsMask.setWidth _) ||| l.fixedValue.setWidth _).getLsbD i =
      (cc.pack (codec n bitFields l) r).getLsbD i := by
  have hmask : l.fieldsMask.getLsbD i = false :=
    Bool.eq_false_iff.2 fun hmask =>
      (Layout.getLsbD_fieldsMask.1 hmask).2.elim fun f hf => hfree f hf.1 hf.2
  rw [Compiler.pack, h.getLsbD_overwrite_of_free hfree, h.getLsbD_fix hi, BitVec.getLsbD_or,
    BitVec.getLsbD_and, BitVec.getLsbD_setWidth, BitVec.getLsbD_setWidth, hmask,
    decide_eq_true hi, Bool.and_false, Bool.and_false, Bool.false_or, Bool.true_and,
    Layout.fixedValue]
  cases haw : l.alwaysWrite with
  | none => simp [Word.zero]
  | some aw =>
    have hfits := h.form.alwaysWrite_fits aw haw i
    cases hv : aw.value.getLsbD i with
    | false => simp [hv]
    | true => simp [hv, hfits hv]

/-- Packing gives back the bits of fields in a value exactly if the members have what is taken out
of the value for them. -/
theorem pack_eq_iff : cc.pack (codec n bitFields l) r =
      (val &&& l.fieldsMask.setWidth _) ||| l.fixedValue.setWidth _ ↔
    ∀ f ∈ l.fieldsByPosition, r (codeName f.name) &&& f.unpositionedMask.toNat =
      (unpackStepOf n l f).taken (codec n bitFields l).packed val := by
  constructor
  · intro heq f hf
    have htaken : (unpackStepOf n l f).taken _ (cc.pack (codec n bitFields l) r) =
        r (codeName f.name) &&& f.unpositionedMask.toNat := h.taken_overwrite hf
    rw [← htaken, heq]
    apply Nat.eq_of_testBit_eq
    intro i
    rw [h.testBit_taken hf, h.testBit_taken hf]
    by_cases hi : shiftOf f + i ∈ f.bits
    · rw [h.getLsbD_settled_of_field hf hi]
    · rw [BitSet.contains_eq_false hi, Bool.and_false, Bool.and_false]
  · intro hall
    apply BitVec.eq_of_getLsbD_eq
    intro i hi
    by_cases hf : ∃ f ∈ l.fieldsByPosition, i ∈ f.bits
    · obtain ⟨f, hf, hif⟩ := hf
      have hle : shiftOf f ≤ i := (BitSet.lsb?_eq_some_iff.1 (lsb?_eq (h.liesIn_width hf))).2 i hif
      have hbit := congrArg (Nat.testBit · (i - shiftOf f)) (hall f hf)
      simp only [Nat.testBit_and, h.testBit_unpositionedMask hf, h.testBit_taken hf,
        Nat.add_sub_cancel' hle, BitSet.contains_iff.2 hif, Bool.and_true] at hbit
      rw [h.getLsbD_settled_of_field hf hif, ← hbit]
      exact h.getLsbD_overwrite_of_field hf hif
    · push Not at hf
      exact (h.getLsbD_settled_of_free hf hi).symm

theorem overwrite_any_order {steps : List PackStep}
    (hperm : steps.Perm (codec n bitFields l).packSteps) :
    cc.overwrite { codec n bitFields l with packSteps := steps } r val =
      cc.overwrite (codec n bitFields l) r val := by
  rw [cc.overwrite_eq, cc.overwrite_eq]
  exact write_perm (fun f => h.liesIn) (Layout.fieldsByPosition_pairwise h.form) hperm

theorem taken_lt_word {type : CWord} (hf : f ∈ l.fieldsByPosition)
    (htype : typeOf n l f = .word type) (v : BitVec (codec n bitFields l).packed.width) :
    (unpackStepOf n l f).taken (codec n bitFields l).packed v < 2 ^ type.width := by
  obtain ⟨p, hp⟩ := h.fitting_span hf
  rw [typeOf, hp] at htype
  cases he : f.enumeration with
  | some e =>
    rw [he] at htype
    cases htype
  | none =>
    rw [he] at htype
    cases htype
    exact (h.taken_lt hf v).trans_le
      (Nat.pow_le_pow_right Nat.two_pos (CWord.width_le_of_fitting hp))

theorem convert_taken (hf : f ∈ l.fieldsByPosition)
    (hkeeps : Keeps cc n l f ((unpackStepOf n l f).taken (codec n bitFields l).packed val)) :
    cc.convert (typeOf n l f) ((unpackStepOf n l f).taken (codec n bitFields l).packed val) =
      (unpackStepOf n l f).taken (codec n bitFields l).packed val := by
  cases htype : typeOf n l f with
  | word type => exact Nat.mod_eq_of_lt (h.taken_lt_word hf htype val)
  | enumeration tag =>
    unfold typeOf at htype
    cases he : f.enumeration with
    | none =>
      rw [he] at htype
      cases htype
    | some e =>
      rw [he] at htype
      cases htype
      exact cc.enumeration_of_lt (hkeeps e he)

theorem shiftOf_mem (hf : f ∈ l.fieldsByPosition) : shiftOf f ∈ f.bits :=
  (BitSet.lsb?_eq_some_iff.1 (lsb?_eq (h.liesIn_width hf))).1

theorem unpositionedMask_lt (hf : f ∈ l.fieldsByPosition) :
    f.unpositionedMask.toNat < 2 ^ (codec n bitFields l).packed.width := by
  apply Word.lt_two_pow_iff.2
  intro i hi
  rw [← BitVec.testBit_toNat, h.testBit_unpositionedMask hf] at hi
  exact (Nat.le_add_left i _).trans_lt ((h.liesIn hf).2 _ (BitSet.contains_iff.1 hi))

theorem placed_lt (hf : f ∈ l.fieldsByPosition) (x : Nat) :
    (x &&& f.unpositionedMask.toNat) <<< shiftOf f < 2 ^ (codec n bitFields l).packed.width := by
  apply Nat.lt_pow_two_of_testBit
  intro i hi
  rw [Nat.testBit_shiftLeft, Nat.testBit_and, h.testBit_unpositionedMask hf]
  by_cases hle : shiftOf f ≤ i
  · have hout : i ∉ f.bits := fun hmem => absurd ((h.liesIn hf).2 i hmem) (not_lt.2 hi)
    rw [Nat.add_sub_cancel' hle, BitSet.contains_eq_false hout, Bool.and_false, Bool.and_false]
  · rw [decide_eq_false (by simpa using hle), Bool.false_and]

theorem lossless : (codec n bitFields l).Lossless where
  fixed_literals fixed hfixed := by
    obtain ⟨aw, haw, rfl⟩ := Option.map_eq_some_iff.1 hfixed
    have hlt (i) (hi : i ∈ aw.bits) : i < (codec n bitFields l).packed.width :=
      (h.form.alwaysWrite_inside aw haw i hi).trans_le h.width_le
    refine ⟨BitSet.mask_lt hlt, Word.lt_two_pow_iff.2 fun i hi => ?_⟩
    exact hlt i (h.form.alwaysWrite_fits aw haw i hi)
  pack_literals s hs := by
    obtain ⟨f, hf, rfl⟩ := List.mem_map.1 hs
    have hlies : f.LiesIn (codec n bitFields l).packed.width := h.liesIn hf
    exact ⟨BitSet.mask_lt hlies.2, h.unpositionedMask_lt hf, hlies.2 _ (h.shiftOf_mem hf)⟩
  unpack_literals s hs := by
    obtain ⟨f, hf, rfl⟩ := List.mem_map.1 hs
    exact ⟨BitSet.mask_lt (h.liesIn hf).2, (h.liesIn hf).2 _ (h.shiftOf_mem hf)⟩
  placed s hs x := by
    obtain ⟨f, hf, rfl⟩ := List.mem_map.1 hs
    exact h.placed_lt hf x
  word_members s hs type htype v := by
    obtain ⟨f, hf, rfl⟩ := List.mem_map.1 hs
    exact h.taken_lt_word hf htype v
  bit_fields := by
    refine List.forall₂_map_left_iff.2 (List.forall₂_map_right_iff.2 (List.forall₂_same.2 ?_))
    intro f hf width hwidth v
    cases bitFields with
    | false => cases hwidth
    | true =>
      cases hwidth
      exact h.taken_lt hf v

end Sound

theorem Sound.of_build {listing : Listing} {m : RegisterMap} (h : listing.build.result = .ok m)
    (hl : l ∈ m.layouts) : Sound l where
  form := RegisterMap.layout_wellFormed h hl
  nonempty _ hf := RegisterMap.layout_field_nonempty h hl hf

end CHeader.FuncPack

end RegAtlas
