import RegAtlas.Proofs.BitSet.Runs
import RegAtlas.Proofs.Columns
import RegAtlas.Proofs.Layout

namespace RegAtlas

/-- What a step may stop at. -/
inductive Hazard where
  | emptyBits
  | noType (width : Nat)
  | shift (amount : Nat)
  | column (index : Nat)
  | address (start offset : Word)
deriving Repr, DecidableEq

abbrev Guarded := Except Hazard

namespace Guarded

variable {α β ε : Type}

def shiftLeft (v : Word) (amount : Nat) : Guarded Word :=
  if amount < wordSize then .ok (v <<< amount) else .error (.shift amount)

def shiftRight (v : Word) (amount : Nat) : Guarded Word :=
  if amount < wordSize then .ok (v >>> amount) else .error (.shift amount)

def add (start offset : Word) : Guarded Word :=
  if start.toNat + offset.toNat < 2 ^ wordSize then .ok (start + offset)
  else .error (.address start offset)

def column (ws : List Nat) (index : Nat) : Guarded Nat :=
  ws[index]?.elim (.error (.column index)) .ok

theorem shiftLeft_eq {v : Word} {n : Nat} (h : n < 64) : shiftLeft v n = .ok (v <<< n) := if_pos h

theorem shiftRight_eq {v : Word} {n : Nat} (h : n < 64) : shiftRight v n = .ok (v >>> n) := if_pos h

theorem add_eq {v w : Word} (h : v.toNat + w.toNat < 2 ^ 64) : add v w = .ok (v + w) := if_pos h

theorem column_eq {ws : List Nat} {i : Nat} (h : i < ws.length) :
    column ws i = .ok (ws.getD i 0) := by
  rw [column, List.getD_eq_getElem?_getD, List.getElem?_eq_getElem h, Option.elim_some,
    Option.getD_some]

/-- There is no hazard, and the computation without guards comes to the same. -/
def Makes (g : Guarded α) (x : Except ε α) : Prop := ∃ a, g = .ok a ∧ x = .ok a

theorem Makes.bind {g : Guarded α} {x : Except ε α} {k : α → Guarded β} {f : α → Except ε β}
    (h : Makes g x) (hk : ∀ a, Makes (k a) (f a)) : Makes (g.bind k) (x.bind f) := by
  obtain ⟨a, rfl, rfl⟩ := h
  exact hk a

theorem Makes.map {g : Guarded α} {x : Except ε α} (h : Makes g x) (f : α → β) :
    Makes (g.map f) (x.map f) := by
  obtain ⟨a, rfl, rfl⟩ := h
  exact ⟨f a, rfl, rfl⟩

theorem Makes.mapM {k : α → Guarded β} {f : α → Except ε β} {xs : List α}
    (h : ∀ x ∈ xs, Makes (k x) (f x)) : Makes (xs.mapM k) (xs.mapM f) := by
  induction xs with
  | nil => exact ⟨[], rfl, rfl⟩
  | cons x xs ih =>
    rw [List.forall_mem_cons] at h
    rw [List.mapM_cons, List.mapM_cons]
    exact h.1.bind fun y => (ih h.2).bind fun ys => ⟨y :: ys, rfl, rfl⟩

end Guarded

namespace Word

def guardedLowMask (width : Nat) : Guarded Word :=
  if wordSize ≤ width then .ok (BitVec.allOnes 64)
  else (Guarded.shiftLeft 1#64 width).map (· - 1#64)

theorem shiftLeft_one_sub_one (width : Nat) : (1#64 <<< width) - 1#64 = lowMask width := by
  have hpow : 1#64 <<< width = BitVec.ofNat 64 (2 ^ width) := by
    apply BitVec.eq_of_toNat_eq
    simp [Nat.shiftLeft_eq]
  rw [hpow, BitVec.ofNat_sub_ofNat_of_le _ _ (by decide) Nat.one_le_two_pow]
  apply BitVec.eq_of_getLsbD_eq
  intro i hi
  rw [BitVec.getLsbD_ofNat, Nat.testBit_two_pow_sub_one, getLsbD_lowMask]

theorem guardedLowMask_eq (width : Nat) : guardedLowMask width = .ok (lowMask width) := by
  unfold guardedLowMask
  split
  next h => rw [lowMask, Nat.sub_eq_zero_of_le h, BitVec.ushiftRight_zero]
  next h =>
    rw [Guarded.shiftLeft_eq (not_le.1 h), ← shiftLeft_one_sub_one]
    rfl

end Word

namespace BitSet

variable {s : BitSet}

def guardedMask (s : BitSet) : Guarded Word :=
  s.positions.foldlM (fun m b => (Guarded.shiftLeft 1#64 b).map (m ||| ·)) Word.zero

def guardedLsb (s : BitSet) : Guarded Nat := s.lsb?.elim (.error .emptyBits) .ok

def guardedExtract (s : BitSet) (v : Word) : Guarded Word := do
  let mask ← s.guardedMask
  let lsb ← s.guardedLsb
  Guarded.shiftRight (v &&& mask) lsb

theorem guardedMask_eq (h : ∀ i ∈ s, i < 64) : s.guardedMask = .ok s.mask := by
  have fold (ps : List Nat) (m : Word) (hps : ∀ i ∈ ps, i < 64) :
      ps.foldlM (fun m b => (Guarded.shiftLeft 1#64 b).map (m ||| ·)) m =
        .ok (ps.foldl (fun m b => m ||| Word.bit b) m) := by
    induction ps generalizing m with
    | nil => rfl
    | cons b ps ih =>
      rw [List.forall_mem_cons] at hps
      rw [List.foldlM_cons, Guarded.shiftLeft_eq hps.1]
      exact ih _ hps.2
  exact fold s.positions Word.zero h

example : (ofPositions [64, 3]).guardedMask = .error (.shift 64) := rfl

theorem exists_lsb (h : ∃ i, i ∈ s) : ∃ l ∈ s, s.guardedLsb = .ok l ∧ s.lsb? = some l := by
  obtain ⟨i, hi⟩ := h
  obtain ⟨l, hl⟩ := exists_lsb? hi
  exact ⟨l, (lsb?_eq_some_iff.1 hl).1, by rw [guardedLsb, hl, Option.elim_some], hl⟩

theorem makes_lsb (h : ∃ i, i ∈ s) : Guarded.Makes s.guardedLsb s.lsb := by
  obtain ⟨l, -, hg, hl⟩ := exists_lsb h
  exact ⟨l, hg, by rw [lsb, hl, Option.elim_some]⟩

theorem makes_extract (h : ∃ i, i ∈ s) (hlt : ∀ i ∈ s, i < 64) (v : Word) :
    Guarded.Makes (s.guardedExtract v) (s.extract v) := by
  obtain ⟨l, hmem, hg, hl⟩ := exists_lsb h
  refine ⟨(v &&& s.mask) >>> l, ?_, ?_⟩
  · rw [guardedExtract, guardedMask_eq hlt, hg]
    exact Guarded.shiftRight_eq (hlt l hmem)
  · exact extract_eq (lsb_eq_ok_iff.2 (lsb?_eq_some_iff.1 hl)) v

theorem lsb_lt_of_mem_ranges {r : BitRange} (hlt : ∀ i ∈ s, i < 64) (hr : r ∈ s.ranges) :
    r.lsb < 64 :=
  hlt r.lsb (mem_iff_exists_range.2 ⟨r, hr, r.contains_lsb⟩)

end BitSet

namespace BitRange

def guardedMask (r : BitRange) : Guarded Word :=
  (Word.guardedLowMask r.width).bind (Guarded.shiftLeft · r.lsb)

def guardedExtract (r : BitRange) (v : Word) : Guarded Word := do
  let mask ← r.guardedMask
  Guarded.shiftRight (v &&& mask) r.lsb

theorem guardedMask_eq {r : BitRange} (h : r.lsb < 64) : r.guardedMask = .ok r.mask := by
  rw [guardedMask, Word.guardedLowMask_eq]
  exact Guarded.shiftLeft_eq h

theorem guardedExtract_eq {r : BitRange} (h : r.lsb < 64) (v : Word) :
    r.guardedExtract v = .ok (r.extract v) := by
  rw [guardedExtract, guardedMask_eq h]
  exact Guarded.shiftRight_eq h

end BitRange

/-- The form is well-formed, and no field of it is without bits. -/
structure RegisterForm.Safe (f : RegisterForm) : Prop where
  wellFormed : f.WellFormed
  nonempty : ∀ a ∈ f.fields.values, ∃ i, i ∈ a.bits

namespace RegisterForm.Safe

variable {f : RegisterForm} {a : Field} {aw : AlwaysWrite} {i : Nat}

theorem bit_lt (h : f.Safe) (ha : a ∈ f.fields.values) (hi : i ∈ a.bits) : i < 64 :=
  (h.wellFormed.bit_lt ha hi).trans_le h.wellFormed.width_le

theorem alwaysWrite_lt (h : f.Safe) (haw : f.alwaysWrite = some aw) (hi : i ∈ aw.bits) : i < 64 :=
  (h.wellFormed.alwaysWrite_inside aw haw i hi).trans_le h.wellFormed.width_le

theorem guardedMask_eq (h : f.Safe) (ha : a ∈ f.fields.values) :
    a.bits.guardedMask = .ok a.mask :=
  BitSet.guardedMask_eq fun _ hi => h.bit_lt ha hi

theorem makes_lsb (h : f.Safe) (ha : a ∈ f.fields.values) :
    Guarded.Makes a.bits.guardedLsb a.bits.lsb :=
  BitSet.makes_lsb (h.nonempty a ha)

theorem makes_extract (h : f.Safe) (ha : a ∈ f.fields.values) (v : Word) :
    Guarded.Makes (a.bits.guardedExtract v) (a.extract v) :=
  BitSet.makes_extract (h.nonempty a ha) (fun _ hi => h.bit_lt ha hi) v

end RegisterForm.Safe

def Field.guardedByPosition (fields : Named Field) : Guarded (List Field) := do
  let placed ← fields.values.mapM fun f => f.bits.guardedLsb.map fun lsb => (lsb, f)
  return (placed.mergeSort fun a b => a.1 ≤ b.1).map Prod.snd

theorem Field.guardedByPosition_eq {fields : Named Field}
    (h : ∀ f ∈ fields.values, ∃ i, i ∈ f.bits) :
    guardedByPosition fields = .ok (byPosition fields) := by
  have hplaced : (fields.values.mapM fun f => f.bits.guardedLsb.map fun lsb => (lsb, f)) =
      .ok (fields.values.map fun f => (f.bits.lsb?.getD 0, f)) := by
    refine Success.mapM_eq_map fun f hf => ?_
    obtain ⟨l, -, hg, hl⟩ := BitSet.exists_lsb (h f hf)
    rw [hg, hl]
    rfl
  rw [guardedByPosition, hplaced]
  refine congrArg Except.ok ?_
  rw [List.map_mergeSort (s := fun a b => a.bits.lsb?.getD 0 ≤ b.bits.lsb?.getD 0), List.map_map]
  · exact congrArg (List.mergeSort · _) (List.map_id _)
  · simp

theorem Register.guardedByPosition_eq {r : Register} (h : r.form.Safe) :
    Field.guardedByPosition r.fields = .ok r.fieldsByPosition :=
  Field.guardedByPosition_eq h.nonempty

namespace Layout

theorem guardedByPosition_eq {l : Layout} (h : l.form.Safe) :
    Field.guardedByPosition l.fields = .ok l.fieldsByPosition :=
  Field.guardedByPosition_eq h.nonempty

def guardedOfTemplate (b : BlockTemplate) (t : TemplateRegister) : Guarded Layout := do
  let instances ← b.instances.entries.mapM fun e =>
    (Guarded.add e.2 t.offset).map (LayoutInstance.mk (e.1 ++ t.name))
  return { ofTemplate b t with
    instances := instances.mergeSort fun x y => x.address ≤ y.address }

theorem guardedOfTemplate_eq {b : BlockTemplate} {t : TemplateRegister}
    (h : ∀ i start, b.instances.get? i = some start → start.toNat + t.offset.toNat < 2 ^ 64) :
    guardedOfTemplate b t = .ok (ofTemplate b t) := by
  have hinstances : (b.instances.entries.mapM fun e =>
      (Guarded.add e.2 t.offset).map (LayoutInstance.mk (e.1 ++ t.name))) =
      .ok (b.instances.entries.map fun e => ⟨e.1 ++ t.name, e.2 + t.offset⟩) := by
    refine Success.mapM_eq_map fun e he => ?_
    rw [Guarded.add_eq (h e.1 e.2 (Table.mem_entries_iff.1 he))]
    rfl
  rw [guardedOfTemplate, hinstances]
  rfl

end Layout

namespace RegisterMap

def guardedLayouts (m : RegisterMap) : Guarded (List Layout) := do
  let templates ← m.blocks.values.mapM fun b =>
    b.registersByOffset.mapM (Layout.guardedOfTemplate b)
  return (m.registersByAddress.filter (·.origin.isNone)).map Layout.ofRegister ++ templates.flatten

/-- Every template register of every instance of a block has an address. -/
def AddressesFit (m : RegisterMap) : Prop :=
  ∀ b block i start k t, m.blocks.get? b = some block → block.instances.get? i = some start →
    block.registers.get? k = some t → start.toNat + t.offset.toNat < 2 ^ 64

theorem guardedLayouts_eq {m : RegisterMap} (h : m.AddressesFit) :
    m.guardedLayouts = .ok m.layouts := by
  have htemplates : (m.blocks.values.mapM fun b =>
      b.registersByOffset.mapM (Layout.guardedOfTemplate b)) =
      .ok (m.blocks.values.map fun b => b.registersByOffset.map (Layout.ofTemplate b)) := by
    refine Success.mapM_eq_map fun block hblock => Success.mapM_eq_map fun t ht => ?_
    obtain ⟨b, hb⟩ := Table.mem_values_iff.1 hblock
    obtain ⟨k, hk⟩ := Table.mem_values_iff.1 (List.mem_mergeSort.1 ht)
    exact Layout.guardedOfTemplate_eq fun i start hi => h b block i start k t hb hi hk
  rw [guardedLayouts, htemplates, layouts, List.flatMap_def]
  rfl

end RegisterMap

namespace Columns

def guardedLines (rows : List Row) (lead sep : String) : Guarded (List String) :=
  let ws := widths rows
  rows.mapM fun row => do
    let cells ← row.zipIdx.mapM fun c => (Guarded.column ws c.2).map (pad c.1 ' ')
    return trimmedEnd (lead ++ sep.intercalate cells)

theorem guardedLines_eq (rows : List Row) (lead sep : String) :
    guardedLines rows lead sep = .ok (lines rows lead sep) := by
  refine Success.mapM_eq_map fun row hrow => ?_
  have hlength := length_le_widths hrow
  have hcells : (row.zipIdx.mapM fun c => (Guarded.column (widths rows) c.2).map (pad c.1 ' ')) =
      .ok (row.zipIdx.map fun c => pad c.1 ' ' ((widths rows).getD c.2 0)) := by
    refine Success.mapM_eq_map fun c hc => ?_
    rw [Guarded.column_eq ((List.snd_lt_of_mem_zipIdx hc).trans_le (by simpa using hlength))]
    rfl
  have hzip : (row.zipIdx.map fun c => pad c.1 ' ' ((widths rows).getD c.2 0)) =
      List.zipWith (fun cell w => pad cell ' ' w) row (widths rows) := by
    refine List.ext_getElem (by simp [hlength]) fun i _ hi => ?_
    have hcolumn : i < (widths rows).length :=
      hi.trans_le (by rw [List.length_zipWith]; exact min_le_right _ _)
    simp [hcolumn]
  rw [hcells, hzip]
  rfl

end Columns

end RegAtlas
