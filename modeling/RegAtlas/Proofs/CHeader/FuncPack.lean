import RegAtlas.Proofs.CHeader.Content
import RegAtlas.Proofs.CHeader.MacroMap

namespace RegAtlas

namespace CHeader

/-- What the statements of a codec compute for a layout, with any compiler. -/
structure Codec.Correct (cc : Compiler) (n : FuncPack.Naming) (l : Layout) (c : Codec) : Prop where
  packed : CWord.fitting? l.width = some c.packed
  /-- The struct has a member for each field. -/
  members : List.Forall₂ (fun m f => m.name = codeName f.name ∧
    FuncPack.memberType n l f = .ok m.type) c.members l.fieldsByPosition
  field_extract : ∀ r val, ∀ f ∈ l.fieldsByPosition, ∃ value,
    f.extract ((cc.overwrite c r val).setWidth 64) = .ok value ∧
      value.toNat = r (codeName f.name) &&& f.unpositionedMask.toNat
  alwaysWrite_bits : ∀ aw, l.alwaysWrite = some aw → ∀ i ∈ aw.bits, ∀ r val,
    (cc.overwrite c r val).getLsbD i = aw.value.getLsbD i
  /-- All other bits stay as they are. -/
  other_bits : ∀ i, (∀ f ∈ l.fieldsByPosition, i ∉ f.bits) →
    (∀ aw, l.alwaysWrite = some aw → i ∉ aw.bits) → ∀ r val,
      (cc.overwrite c r val).getLsbD i = val.getLsbD i
  /-- The statements for the members may be run in any order. -/
  any_order : ∀ r val steps, steps.Perm c.packSteps →
    cc.overwrite { c with packSteps := steps } r val = cc.overwrite c r val
  lossless : c.Lossless

/-- Unpacking undoes packing, up to what an enumeration type does not hold. -/
structure Codec.Inverts (cc : Compiler) (n : FuncPack.Naming) (l : Layout) (c : Codec) : Prop where
  /-- A member gets the value of its field, made one of its type. -/
  unpack_convert : ∀ v r, ∀ f ∈ l.fieldsByPosition, ∀ type value,
    FuncPack.memberType n l f = .ok type → f.extract (v.setWidth 64) = .ok value →
      cc.unpackInto c v r (codeName f.name) = cc.convert type value.toNat
  unpack_extract : ∀ v r, ∀ f ∈ l.fieldsByPosition, ∀ value,
    f.extract (v.setWidth 64) = .ok value → FuncPack.Keeps cc n l f value.toNat →
      cc.unpackInto c v r (codeName f.name) = value.toNat
  unpack_overwrite : ∀ r val r', ∀ f ∈ l.fieldsByPosition,
    FuncPack.Keeps cc n l f (r (codeName f.name) &&& f.unpositionedMask.toNat) →
      cc.unpackInto c (cc.overwrite c r val) r' (codeName f.name) =
        r (codeName f.name) &&& f.unpositionedMask.toNat
  /-- Packing what was unpacked keeps the bits of fields and sets the always-write bits, exactly if
  no value of a field is changed by making it one of an enumeration type. -/
  pack_unpack_iff : ∀ v r, cc.pack c (cc.unpackInto c v r) =
      (v &&& l.fieldsMask.setWidth _) ||| l.fixedValue.setWidth _ ↔
    ∀ f ∈ l.fieldsByPosition, ∀ type value, FuncPack.memberType n l f = .ok type →
      f.extract (v.setWidth 64) = .ok value →
        cc.convert type value.toNat &&& f.unpositionedMask.toNat = value.toNat
  pack_unpack : ∀ v r, (∀ f ∈ l.fieldsByPosition, ∀ value, f.extract (v.setWidth 64) = .ok value →
      FuncPack.Keeps cc n l f value.toNat) →
    cc.pack c (cc.unpackInto c v r) = (v &&& l.fieldsMask.setWidth _) ||| l.fixedValue.setWidth _

/-- What a header has for a layout with fields. -/
structure Codec.Serves (cc : Compiler) (n : FuncPack.Naming) (h : Header) (l : Layout) (c : Codec) :
    Prop where
  tag : c.tag = n.structTag l
  declared : c.DeclaredIn h
  correct : c.Correct cc n l
  /-- Members of one name would be no members of one struct. -/
  inverts : (c.members.map Member.name).Nodup → c.Inverts cc n l
  entries_kept : cc.HoldsEnumerators h → ∀ f ∈ l.fieldsByPosition, ∀ e, f.enumeration = some e →
    ∀ k entry, e.entries.get? k = some entry → FuncPack.Keeps cc n l f entry.value.toNat
  /-- An enumeration type with all bits of a field holds each of its values. -/
  width_kept : ∀ f ∈ l.fieldsByPosition, (∀ e, f.enumeration = some e →
      2 ^ f.bits.spanWidth ≤ cc.range (n.enumTag (n.enumBase l e))) →
    ∀ (v : BitVec c.packed.width) (value : Word), f.extract (v.setWidth 64) = .ok value →
      FuncPack.Keeps cc n l f value.toNat

theorem Codec.Correct.names {cc : Compiler} {n : FuncPack.Naming} {l : Layout} {c : Codec}
    (h : c.Correct cc n l) :
    c.members.map Member.name = l.fieldsByPosition.map fun f => codeName f.name := by
  have hnames : List.Forall₂ (· = ·) (c.members.map Member.name)
      (l.fieldsByPosition.map fun f => codeName f.name) :=
    List.forall₂_map_left_iff.2 (List.forall₂_map_right_iff.2 (h.members.imp fun _ _ hm => hm.1))
  rwa [List.forall₂_eq_eq_eq] at hnames

namespace FuncPack

variable {cc : Compiler} {n : Naming} {bitFields : Bool} {l : Layout} {f : Field}

theorem Sound.correct (hl : Sound l) : (codec n bitFields l).Correct cc n l where
  packed := hl.fitting
  members := by
    refine List.forall₂_map_left_iff.2 (List.forall₂_same.2 fun f hf => ?_)
    exact ⟨rfl, hl.memberType_eq hf⟩
  field_extract r val f hf := by
    obtain ⟨value, hvalue, htaken⟩ :=
      hl.exists_extract hf (cc.overwrite (codec n bitFields l) r val)
    exact ⟨value, hvalue, htaken.trans (hl.taken_overwrite hf)⟩
  alwaysWrite_bits _ haw _ hi _ _ := hl.getLsbD_overwrite_of_alwaysWrite haw hi
  other_bits _ hfree haw _ _ := hl.getLsbD_overwrite_of_unused hfree haw
  any_order _ _ _ := hl.overwrite_any_order
  lossless := hl.lossless

theorem Sound.unpack_convert (hl : Sound l)
    (hnames : (l.fieldsByPosition.map fun f => codeName f.name).Nodup)
    (v : BitVec (codec n bitFields l).packed.width) (r : String → Nat)
    (hf : f ∈ l.fieldsByPosition) {type : MemberType} (htype : memberType n l f = .ok type)
    {value : Word} (hvalue : f.extract (v.setWidth 64) = .ok value) :
    cc.unpackInto (codec n bitFields l) v r (codeName f.name) = cc.convert type value.toNat := by
  obtain ⟨taken, htaken, heq⟩ := hl.exists_extract hf v
  cases hvalue.symm.trans htaken
  cases htype.symm.trans (hl.memberType_eq hf)
  rw [unpackInto_eq hnames hf, heq]

theorem Sound.inverts (hl : Sound l)
    (hnames : (l.fieldsByPosition.map fun f => codeName f.name).Nodup) :
    (codec n bitFields l).Inverts cc n l where
  unpack_convert v r _ hf _ _ htype hvalue := hl.unpack_convert hnames v r hf htype hvalue
  unpack_extract v r f hf value hvalue hkeeps := by
    obtain ⟨taken, htaken, heq⟩ := hl.exists_extract hf v
    cases hvalue.symm.trans htaken
    rw [unpackInto_eq hnames hf, heq]
    rw [heq] at hkeeps
    exact hl.convert_taken hf hkeeps
  unpack_overwrite r val r' f hf hkeeps := by
    have htaken : (unpackStepOf n l f).taken _ (cc.overwrite (codec n bitFields l) r val) =
        r (codeName f.name) &&& f.unpositionedMask.toNat := hl.taken_overwrite hf
    rw [unpackInto_eq hnames hf, ← htaken]
    rw [← htaken] at hkeeps
    exact hl.convert_taken hf hkeeps
  pack_unpack_iff v r := by
    rw [hl.pack_eq_iff]
    refine forall₂_congr fun f hf => ?_
    obtain ⟨taken, htaken, heq⟩ := hl.exists_extract hf v
    rw [unpackInto_eq hnames hf, ← heq]
    constructor
    · intro hall type value htype hvalue
      cases htype.symm.trans (hl.memberType_eq hf)
      cases hvalue.symm.trans htaken
      exact hall
    · exact fun hall => hall _ _ (hl.memberType_eq hf) htaken
  pack_unpack v r hkeeps := by
    refine hl.pack_eq_iff.2 fun f hf => ?_
    obtain ⟨taken, htaken, heq⟩ := hl.exists_extract hf v
    have hkept : Keeps cc n l f ((unpackStepOf n l f).taken _ v) := heq ▸ hkeeps f hf _ htaken
    rw [unpackInto_eq hnames hf, hl.convert_taken hf hkept, hl.taken_and_mask hf]

theorem Sound.pack_unpack_ne (hl : Sound l)
    (hnames : (l.fieldsByPosition.map fun f => codeName f.name).Nodup)
    {v : BitVec (codec n bitFields l).packed.width} {r : String → Nat} (hf : f ∈ l.fieldsByPosition)
    {e : Enumeration} (he : f.enumeration = some e) {value : Word}
    (hvalue : f.extract (v.setWidth 64) = .ok value)
    (hlost : cc.enumeration (n.enumTag (n.enumBase l e)) value.toNat &&&
      f.unpositionedMask.toNat ≠ value.toNat) :
    cc.pack (codec n bitFields l) (cc.unpackInto (codec n bitFields l) v r) ≠
      (v &&& l.fieldsMask.setWidth _) ||| l.fixedValue.setWidth _ := by
  have htype : memberType n l f = .ok (.enumeration (n.enumTag (n.enumBase l e))) := by
    rw [memberType, he]
  exact fun heq => hlost ((hl.inverts hnames).pack_unpack_iff v r |>.1 heq f hf _ _ htype hvalue)

theorem codec_declared {h : Header} (hsub : structItemsOf n bitFields l ⊆ h) :
    (codec n bitFields l).DeclaredIn h where
  struct := ⟨l.docs, hsub (by simp [structItemsOf])⟩
  pack := ⟨n.function l "overwrite", n.function l "pack", hsub (by simp [structItemsOf]),
    hsub (by simp [structItemsOf])⟩
  unpack := ⟨n.function l "unpack_into", n.function l "unpack", hsub (by simp [structItemsOf]),
    hsub (by simp [structItemsOf])⟩
  pack_code _ := (codec n bitFields l).code_overwrite _
  unpack_code _ := (codec n bitFields l).code_unpackInto _
  packed_members := by simp [codec, packStepOf, memberOf]
  unpacked_members := by simp [codec, unpackStepOf, memberOf]

theorem keeps_of_entry {h : Header} {e : Enumeration} {k : String} {entry : EnumEntry}
    (hcc : cc.HoldsEnumerators h)
    (hdecl : .enumeration (enumDecl n (n.enumBase l e) e) ∈ h)
    (hentry : e.entries.get? k = some entry) :
    entry.value.toNat < cc.range (n.enumTag (n.enumBase l e)) := by
  have hmem : entry ∈ e.entriesByValue := List.mem_mergeSort.2 (Table.mem_values_iff.2 ⟨k, hentry⟩)
  exact hcc _ (mem_enumerations_iff.2 hdecl)
    ⟨n.enumerator (n.enumBase l e) entry, entry.value, entry.docs⟩
    (List.mem_map_of_mem hmem)

theorem Sound.serves {h : Header} (hl : Sound l) (hsub : structItemsOf n bitFields l ⊆ h)
    (henums : ∀ f ∈ l.fieldsByPosition, ∀ e, f.enumeration = some e →
      .enumeration (enumDecl n (n.enumBase l e) e) ∈ h) :
    (codec n bitFields l).Serves cc n h l where
  tag := rfl
  declared := codec_declared hsub
  correct := hl.correct
  inverts hnames := by
    have hmembers : (codec n bitFields l).members.map Member.name =
        l.fieldsByPosition.map fun f => codeName f.name := List.map_map ..
    exact hl.inverts (hmembers ▸ hnames)
  entries_kept hcc f hf e he k entry hentry e' he' := by
    cases he.symm.trans he'
    exact keeps_of_entry hcc (henums f hf e he) hentry
  width_kept f hf hwidth v value hvalue e he := by
    obtain ⟨taken, htaken, heq⟩ := hl.exists_extract hf v
    cases hvalue.symm.trans htaken
    rw [heq]
    exact (hl.taken_lt hf v).trans_le (hwidth e he)

theorem narrow_holdsEnumerators {m : RegisterMap} {s : Setting} {generator : String}
    (hm : ∀ e ∈ m.enumerations, ∀ entry ∈ e.entries.values, entry.value.toNat < 2 ^ 32) :
    Compiler.narrow.HoldsEnumerators (headerOf m s generator) := by
  intro d hd x hx
  obtain ⟨base, e, he, rfl⟩ := enumeration_of_mem_headerOf (mem_enumerations_iff.1 hd)
  obtain ⟨entry, hentry, rfl⟩ := List.mem_map.1 hx
  exact hm e he entry (List.mem_mergeSort.1 hentry)

end FuncPack

end CHeader

/-- A field of 40 bits, with an enumeration of two small values. -/
def Listing.dial : Listing :=
  let entry (v : Word) : Listing.EntrySpec := ⟨v, none, none⟩
  let position : Listing.FieldSpec := ⟨.range "39-0", none, none, none,
    some (.own (.ofList [("HIGH", entry 1#64), ("LOW", entry 0#64)]))⟩
  let dial : Listing.RegisterSpec :=
    { fields := .ofList [("POSITION", position)]
      address := some 0x10#64
      width := some 64
      access := none
      resetValue := none
      alwaysWrite := none
      brief := none
      doc := none }
  { name := "chip"
    defaultWidth := none
    brief := none
    doc := none
    author := none
    note := none
    registers := .ofList [("DIAL", .register dial)]
    enums := .empty
    blocks := .empty }

def Enumeration.dial : Enumeration :=
  ⟨"POSITION", false, .none,
    .ofList [("HIGH", ⟨"HIGH", 1#64, .none⟩), ("LOW", ⟨"LOW", 0#64, .none⟩)]⟩

def Field.dial : Field := ⟨"POSITION", .ofRange ⟨0, 40, by decide⟩, [], .none, some .dial⟩

def Register.dial : Register :=
  ⟨"DIAL", some 0x10#64, 64, .ofList [("POSITION", .dial)], none, none, none, .none⟩

def RegisterMap.dial : RegisterMap :=
  ⟨"chip", .none, none, none, none, .ofList [("DIAL", .dial)], .empty, .empty⟩

theorem RegisterMap.build_dial : Listing.dial.build.result = .ok dial := by decide +kernel

theorem RegisterMap.mem_layouts_dial : Layout.ofRegister .dial ∈ dial.layouts :=
  mem_layouts_iff.2 (.inl ⟨"DIAL", .dial, rfl, rfl, rfl⟩)

theorem Register.dial_fieldsByPosition : (Layout.ofRegister dial).fieldsByPosition = [.dial] :=
  List.mergeSort_singleton _

namespace CHeader.FuncPack

theorem setWidth_two_pow {p : CWord} (hp : CWord.fitting? 64 = some p) :
    (BitVec.ofNat p.width (2 ^ 32)).setWidth 64 = 0x100000000#64 := by
  cases hp
  rfl

end CHeader.FuncPack

end RegAtlas
