import RegAtlas.CHeader.Frame
import RegAtlas.Layout

namespace RegAtlas.CHeader.FuncPack

/-- What the names in a header start with, and whether those of local enumerations tell their
layout. -/
structure Naming where
  code : String
  macros : String
  enumsByLayout : Bool

namespace Naming

def of (m : RegisterMap) (c : Config) : Naming := ⟨c.codeLead m, c.macroLead m, c.enumsByLayout⟩

def structTag (n : Naming) (l : Layout) : String := n.code ++ "_" ++ codeName l.name

def function (n : Naming) (l : Layout) (what : String) : String := n.structTag l ++ "_" ++ what

def enumBase (n : Naming) (l : Layout) (e : Enumeration) : String :=
  if !e.shared && n.enumsByLayout then l.name ++ "_" ++ e.name else e.name

def enumTag (n : Naming) (base : String) : String := n.code ++ "_" ++ codeName base

def enumerator (n : Naming) (base : String) (entry : EnumEntry) : String :=
  n.macros ++ "_" ++ macroName base ++ "_" ++ macroName entry.name

end Naming

def wordFor (width : Nat) : Except GenerateError CWord :=
  (CWord.fitting? width).elim (.error (.noType width)) .ok

def enumDecl (n : Naming) (base : String) (e : Enumeration) : EnumDecl where
  tag := n.enumTag base
  docs := e.docs
  entries := e.entriesByValue.map fun entry => ⟨n.enumerator base entry, entry.value, entry.docs⟩

def memberType (n : Naming) (l : Layout) (f : Field) : Except GenerateError MemberType :=
  match f.enumeration with
  | some e => .ok (.enumeration (n.enumTag (n.enumBase l e)))
  | none => (wordFor f.bits.spanWidth).map .word

def member (n : Naming) (bitFields : Bool) (l : Layout) (f : Field) : Except GenerateError Member :=
  (memberType n l f).map fun type =>
    ⟨codeName f.name, type, if bitFields then some f.bits.spanWidth else none, f.docs⟩

def packStep (f : Field) : Except GenerateError PackStep := do
  let shift ← f.bits.lsb.mapError .bit
  return ⟨s!"{f.name} @ {f.bits.text}", codeName f.name, f.mask, f.unpositionedMask, shift⟩

def unpackStep (n : Naming) (l : Layout) (f : Field) : Except GenerateError UnpackStep := do
  let type ← memberType n l f
  let shift ← f.bits.lsb.mapError .bit
  return ⟨codeName f.name, type, f.mask, shift⟩

def structItems (n : Naming) (bitFields : Bool) (l : Layout) : Except GenerateError Header := do
  let tag := n.structTag l
  let members ← l.fieldsByPosition.mapM (member n bitFields l)
  let packed ← wordFor l.width
  let packSteps ← l.fieldsByPosition.mapM packStep
  let unpackSteps ← l.fieldsByPosition.mapM (unpackStep n l)
  let fixed := l.alwaysWrite.map fun aw => FixedBits.mk aw.bits.mask aw.value
  let overwrite := n.function l "overwrite"
  let unpackInto := n.function l "unpack_into"
  return [
    .blank, .struct ⟨tag, l.docs, members⟩, .blank, .rule s!"{l.name} pack/unpack", .blank,
    .brief "Write all fields of @p r into @p val, leaving other bits unchanged.",
    .function (.overwrite overwrite tag packed fixed packSteps), .blank,
    .brief "Convert @p r into a register value. Unused bits are zero.",
    .function (.pack (n.function l "pack") tag packed overwrite), .blank,
    .brief "Decode register value @p val into @p r.",
    .function (.unpackInto unpackInto tag packed unpackSteps), .blank,
    .brief "Decode register value @p val.",
    .function (.unpack (n.function l "unpack") tag packed unpackInto)]

def layoutDefines (n : Naming) (l : Layout) : List Define :=
  (l.instances.map fun i =>
    ⟨n.macros ++ "_" ++ macroName i.name, .sized i.address, s!"{i.name} register address"⟩) ++
  (l.resetValue.map fun v =>
    ⟨n.macros ++ "_" ++ macroName l.name ++ "__RESET", .sized v,
      s!"{l.name} register reset value"⟩).toList

def localEnumItems (n : Naming) (l : Layout) : Header :=
  l.localEnums.flatMap fun (_, e) => [.blank, .enumeration (enumDecl n (n.enumBase l e) e)]

def layoutItems (n : Naming) (bitFields : Bool) (l : Layout) : Except GenerateError Header := do
  let defines := layoutDefines n l
  let structs ← if l.fields.isEmpty then .ok [] else structItems n bitFields l
  return [.blank, .banner s!"{l.name} Register"] ++
    (if defines.isEmpty then [] else [.blank, .defines (defines.map some)]) ++
    localEnumItems n l ++ structs

def sharedEnumItems (n : Naming) (m : RegisterMap) : Header :=
  if m.enums.isEmpty then []
  else [.blank, .banner "Shared enums"] ++
    m.enums.values.flatMap fun e => [.blank, .enumeration (enumDecl n e.name e)]

def dispatch (n : Naming) (ls : List Layout) (name parameters what : String) : Item :=
  .dispatch ⟨n.macros ++ "_" ++ name, parameters,
    ls.map fun l => (n.structTag l, n.function l what)⟩

def dispatchItems (n : Naming) (ls : List Layout) : Header :=
  if ls.isEmpty then []
  else [
    .blank, .banner "Generic Macros", .blank,
    .brief "Write all fields of a register struct into a value.",
    dispatch n ls "OVERWRITE" "_struct_ptr, _val" "overwrite", .blank,
    .brief "Convert a register struct into a value.",
    dispatch n ls "PACK" "_struct_ptr" "pack", .blank,
    .brief "Decode a value into a register struct.",
    dispatch n ls "UNPACK_INTO" "_val, _struct_ptr" "unpack_into"]

def header (m : RegisterMap) (s : Setting) (generator : String) : Except GenerateError Header := do
  let n := Naming.of m s.config
  let layouts ← m.layouts.mapM (layoutItems n s.config.bitFields)
  return opening m s generator ++ sharedEnumItems n m ++ layouts.flatten ++
    (if s.config.dispatchMacros then
      dispatchItems n (m.layouts.filter (!·.fields.isEmpty)) else []) ++
    closing m s

end RegAtlas.CHeader.FuncPack
