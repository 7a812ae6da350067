import RegAtlas.CHeader.MacroMap
import RegAtlas.CHeader.Printer
import RegAtlas.Proofs.CHeader.FuncPack
import RegAtlas.Proofs.Guarded.Basic

namespace RegAtlas.CHeader

open Guarded (Makes)

variable {l : Layout} {f : Field} {m : RegisterMap}

def Item.guardedLines : Item → Guarded (List String)
  | defines rows => Columns.guardedLines (rows.map fun r => r.elim [] Define.row) "" " "
  | item => .ok item.lines

def Header.guardedLines (h : Header) : Guarded (List String) :=
  (h.mapM Item.guardedLines).map List.flatten

theorem Item.guardedLines_eq (item : Item) : item.guardedLines = .ok item.lines := by
  unfold guardedLines
  split
  next rows => exact Columns.guardedLines_eq _ _ _
  next => rfl

theorem Header.guardedLines_eq (h : Header) : h.guardedLines = .ok h.lines := by
  have hitems : h.mapM Item.guardedLines = .ok (h.map Item.lines) :=
    Success.mapM_eq_map fun item _ => item.guardedLines_eq
  rw [guardedLines, hitems, lines, List.flatMap_def]
  rfl

namespace MacroMap

def guardedLayoutComment (l : Layout) : Guarded (List String) :=
  if l.fields.isEmpty then .ok (l.docs.multiLine "// ")
  else (Field.guardedByPosition l.fields).map fun fs =>
    l.docs.multiLine "// " ++ "// Fields:" :: fs.flatMap fieldComment

def guardedAlwaysWriteDefines (name : String) (l : Layout) : Guarded (List Define) :=
  l.alwaysWrite.elim (.ok []) fun aw => aw.bits.guardedMask.map fun mask => [
    ⟨name ++ "__ALWAYSWRITE_MASK", .plain mask, s!"{l.name} register always write mask"⟩,
    ⟨name ++ "__ALWAYSWRITE_VALUE", .plain aw.value, s!"{l.name} register always write value"⟩]

def guardedFieldDefines (name : String) (l : Layout) (f : Field) : Guarded (List Define) := do
  let mask ← f.bits.guardedMask
  let shift ← f.bits.guardedLsb
  let name := name ++ "_" ++ macroName f.name
  return [⟨name ++ "__MASK", .plain mask, s!"{l.name}.{f.name}: bit mask (shifted)"⟩,
    ⟨name ++ "__SHIFT", .decimal shift, s!"{l.name}.{f.name}: bit shift"⟩] ++
    entryDefines name l f

def guardedLayoutDefines (lead : String) (l : Layout) : Guarded (List (List Define)) := do
  let name := lead ++ "_" ++ macroName l.name
  let fixed ← guardedAlwaysWriteDefines name l
  let fields ← Field.guardedByPosition l.fields
  let groups ← fields.mapM (guardedFieldDefines name l)
  return resetDefines name l :: fixed :: groups

def guardedLayoutItems (lead : String) (l : Layout) : Guarded Header := do
  let comment ← guardedLayoutComment l
  let groups ← guardedLayoutDefines lead l
  let rows := (addressDefines lead l).map some ++ groupRows groups
  return [.blank, .banner s!"{l.name} Register"] ++ comment.map .comment ++
    if rows.isEmpty then [] else [.blank, .defines rows]

def guardedHeader (m : RegisterMap) (s : Setting) (generator : String) : Guarded Header := do
  let lead := s.config.macroLead m
  let layouts ← m.guardedLayouts
  let items ← layouts.mapM (guardedLayoutItems lead)
  return opening m s generator ++ m.blocks.values.flatMap (blockItems lead) ++ items.flatten ++
    closing m s

theorem guardedLayoutComment_eq (h : l.form.Safe) :
    guardedLayoutComment l = .ok (layoutComment l) := by
  unfold guardedLayoutComment layoutComment
  cases l.fields.isEmpty with
  | true => rw [if_pos rfl, if_pos rfl, List.append_nil]
  | false =>
    rw [Layout.guardedByPosition_eq h]
    rfl

theorem guardedAlwaysWriteDefines_eq (h : l.form.Safe) (name : String) :
    guardedAlwaysWriteDefines name l = .ok (alwaysWriteDefines name l) := by
  unfold guardedAlwaysWriteDefines alwaysWriteDefines
  cases haw : l.alwaysWrite with
  | none => rfl
  | some aw =>
    rw [Option.elim_some, BitSet.guardedMask_eq fun i hi => h.alwaysWrite_lt haw hi]
    rfl

theorem makes_fieldDefines (h : l.form.Safe) (hf : f ∈ l.fieldsByPosition) (name : String) :
    Makes (guardedFieldDefines name l f) (fieldDefines name l f) := by
  have hmem := Layout.mem_fieldsByPosition_iff.1 hf
  obtain ⟨shift, hg, hx⟩ := h.makes_lsb hmem
  rw [guardedFieldDefines, fieldDefines, h.guardedMask_eq hmem, hg, hx]
  exact ⟨_, rfl, rfl⟩

theorem makes_layoutDefines (h : l.form.Safe) (lead : String) :
    Makes (guardedLayoutDefines lead l) (layoutDefines lead l) := by
  unfold guardedLayoutDefines layoutDefines
  dsimp only
  rw [guardedAlwaysWriteDefines_eq h, Layout.guardedByPosition_eq h]
  exact (Makes.mapM fun f hf => makes_fieldDefines h hf _).bind fun groups => ⟨_, rfl, rfl⟩

theorem makes_layoutItems (h : l.form.Safe) (lead : String) :
    Makes (guardedLayoutItems lead l) (layoutItems lead l) := by
  rw [guardedLayoutItems, layoutItems, guardedLayoutComment_eq h]
  exact (makes_layoutDefines h lead).bind fun groups => ⟨_, rfl, rfl⟩

theorem makes_header (hfit : m.AddressesFit) (h : ∀ l ∈ m.layouts, l.form.Safe) (s : Setting)
    (generator : String) : Makes (guardedHeader m s generator) (header m s generator) := by
  rw [guardedHeader, header, RegisterMap.guardedLayouts_eq hfit]
  exact (Makes.mapM fun l hl => makes_layoutItems (h l hl) _).bind fun items => ⟨_, rfl, rfl⟩

end MacroMap

namespace FuncPack

variable {n : Naming} {bitFields : Bool}

def guardedWordFor (width : Nat) : Guarded CWord :=
  if 1 ≤ width ∧ width ≤ wordSize then (CWord.fitting? width).elim (.error (.noType width)) .ok
  else .error (.noType width)

def guardedMemberType (n : Naming) (l : Layout) (f : Field) : Guarded MemberType :=
  match f.enumeration with
  | some e => .ok (.enumeration (n.enumTag (n.enumBase l e)))
  | none => (guardedWordFor f.bits.spanWidth).map .word

def guardedMember (n : Naming) (bitFields : Bool) (l : Layout) (f : Field) : Guarded Member :=
  (guardedMemberType n l f).map fun type =>
    ⟨codeName f.name, type, if bitFields then some f.bits.spanWidth else none, f.docs⟩

def guardedPackStep (f : Field) : Guarded PackStep := do
  let mask ← f.bits.guardedMask
  let unpositioned ← f.bits.unpositioned.guardedMask
  let shift ← f.bits.guardedLsb
  return ⟨s!"{f.name} @ {f.bits.text}", codeName f.name, mask, unpositioned, shift⟩

def guardedUnpackStep (n : Naming) (l : Layout) (f : Field) : Guarded UnpackStep := do
  let type ← guardedMemberType n l f
  let mask ← f.bits.guardedMask
  let shift ← f.bits.guardedLsb
  return ⟨codeName f.name, type, mask, shift⟩

def guardedFixed (l : Layout) : Guarded (Option FixedBits) :=
  l.alwaysWrite.elim (.ok none) fun aw => aw.bits.guardedMask.map fun mask => some ⟨mask, aw.value⟩

def guardedStructItems (n : Naming) (bitFields : Bool) (l : Layout) : Guarded Header := do
  let tag := n.structTag l
  let fields ← Field.guardedByPosition l.fields
  let members ← fields.mapM (guardedMember n bitFields l)
  let packed ← guardedWordFor l.width
  let packSteps ← fields.mapM guardedPackStep
  let unpackSteps ← fields.mapM (guardedUnpackStep n l)
  let fixed ← guardedFixed l
  let overwrite := n.function l "overwrite"
  let unpackInto := n.function l "unpack_into"
  return [
    .blank, .struct ⟨tag, l.docs, members⟩, .blank, .rule s!"{l.name} pack/unpack", .blank,
    .brief "Write all fields of @p r into @p val, leaving other bits unchanged.",
    .function (.overwrite overwrite tag packed fixed packSteps), .blank,
    .brief "Convert @p r into a register value. Unused bits are zero.",
    .function (.pack (n.function l "pack") tag packed overwrite), .blank,
    .brief "Decode register value @p val into @p r.",
    .function (.unpackInto unpackInto tag packed unpackSteps), .blank,
    .brief "Decode register value @p val.",
    .function (.unpack (n.function l "unpack") tag packed unpackInto)]

def guardedLocalEnumItems (n : Naming) (l : Layout) : Guarded Header :=
  (Field.guardedByPosition l.fields).map fun fs =>
    (fs.filterMap fun f => f.localEnum.map fun e => (f, e)).flatMap fun (_, e) =>
      [.blank, .enumeration (enumDecl n (n.enumBase l e) e)]

def guardedLayoutItems (n : Naming) (bitFields : Bool) (l : Layout) : Guarded Header := do
  let defines := layoutDefines n l
  let enums ← guardedLocalEnumItems n l
  let structs ← if l.fields.isEmpty then .ok [] else guardedStructItems n bitFields l
  return [.blank, .banner s!"{l.name} Register"] ++
    (if defines.isEmpty then [] else [.blank, .defines (defines.map some)]) ++ enums ++ structs

def guardedHeader (m : RegisterMap) (s : Setting) (generator : String) : Guarded Header := do
  let n := Naming.of m s.config
  let layouts ← m.guardedLayouts
  let items ← layouts.mapM (guardedLayoutItems n s.config.bitFields)
  return opening m s generator ++ sharedEnumItems n m ++ items.flatten ++
    (if s.config.dispatchMacros then
      dispatchItems n (layouts.filter (!·.fields.isEmpty)) else []) ++
    closing m s

theorem makes_wordFor {width : Nat} (hpos : 1 ≤ width) (hle : width ≤ 64) :
    Makes (guardedWordFor width) (wordFor width) := by
  obtain ⟨p, hp⟩ := CWord.exists_fitting hpos hle
  rw [guardedWordFor, wordFor, if_pos ⟨hpos, hle⟩, hp]
  exact ⟨p, rfl, rfl⟩

theorem makes_memberType (h : l.form.Safe) (hf : f ∈ l.fieldsByPosition) :
    Makes (guardedMemberType n l f) (memberType n l f) := by
  have hmem := Layout.mem_fieldsByPosition_iff.1 hf
  unfold guardedMemberType memberType
  cases f.enumeration with
  | some e => exact ⟨_, rfl, rfl⟩
  | none =>
    obtain ⟨i, hi⟩ := h.nonempty f hmem
    exact (makes_wordFor (BitSet.spanWidth_pos hi)
      (BitSet.spanWidth_le fun i hi => h.bit_lt hmem hi)).map _

theorem makes_packStep (h : l.form.Safe) (hf : f ∈ l.fieldsByPosition) :
    Makes (guardedPackStep f) (packStep f) := by
  have hmem := Layout.mem_fieldsByPosition_iff.1 hf
  obtain ⟨shift, hg, hx⟩ := h.makes_lsb hmem
  have hunpositioned : ∀ i ∈ f.bits.unpositioned, i < 64 := by
    intro i hi
    obtain ⟨l, -, hl⟩ := BitSet.mem_unpositioned.1 hi
    exact (Nat.le_add_right i l).trans_lt (h.bit_lt hmem hl)
  rw [guardedPackStep, packStep, h.guardedMask_eq hmem, BitSet.guardedMask_eq hunpositioned, hg, hx]
  exact ⟨_, rfl, rfl⟩

theorem makes_unpackStep (h : l.form.Safe) (hf : f ∈ l.fieldsByPosition) :
    Makes (guardedUnpackStep n l f) (unpackStep n l f) := by
  have hmem := Layout.mem_fieldsByPosition_iff.1 hf
  obtain ⟨shift, hg, hx⟩ := h.makes_lsb hmem
  rw [guardedUnpackStep, unpackStep, h.guardedMask_eq hmem, hg, hx]
  exact (makes_memberType h hf).bind fun type => ⟨_, rfl, rfl⟩

theorem guardedFixed_eq (h : l.form.Safe) :
    guardedFixed l = .ok (l.alwaysWrite.map fun aw => ⟨aw.bits.mask, aw.value⟩) := by
  unfold guardedFixed
  cases haw : l.alwaysWrite with
  | none => rfl
  | some aw =>
    rw [Option.elim_some, BitSet.guardedMask_eq fun i hi => h.alwaysWrite_lt haw hi]
    rfl

theorem makes_structItems (h : l.form.Safe) :
    Makes (guardedStructItems n bitFields l) (structItems n bitFields l) := by
  rw [guardedStructItems, structItems, Layout.guardedByPosition_eq h, guardedFixed_eq h]
  refine (Makes.mapM fun f hf => (makes_memberType h hf).map _).bind fun members => ?_
  refine (makes_wordFor h.wellFormed.width_pos h.wellFormed.width_le).bind fun packed => ?_
  refine (Makes.mapM fun f hf => makes_packStep h hf).bind fun packSteps => ?_
  exact (Makes.mapM fun f hf => makes_unpackStep h hf).bind fun unpackSteps => ⟨_, rfl, rfl⟩

theorem guardedLocalEnumItems_eq (h : l.form.Safe) :
    guardedLocalEnumItems n l = .ok (localEnumItems n l) := by
  rw [guardedLocalEnumItems, Layout.guardedByPosition_eq h]
  rfl

theorem makes_layoutItems (h : l.form.Safe) :
    Makes (guardedLayoutItems n bitFields l) (layoutItems n bitFields l) := by
  rw [guardedLayoutItems, layoutItems, guardedLocalEnumItems_eq h]
  cases l.fields.isEmpty with
  | true => exact ⟨_, rfl, rfl⟩
  | false => exact (makes_structItems h).bind fun structs => ⟨_, rfl, rfl⟩

theorem makes_header (hfit : m.AddressesFit) (h : ∀ l ∈ m.layouts, l.form.Safe) (s : Setting)
    (generator : String) : Makes (guardedHeader m s generator) (header m s generator) := by
  rw [guardedHeader, header, RegisterMap.guardedLayouts_eq hfit]
  exact (Makes.mapM fun l hl => makes_layoutItems (h l hl)).bind fun items => ⟨_, rfl, rfl⟩

end FuncPack

end RegAtlas.CHeader
