import RegAtlas.CHeader.Frame
import RegAtlas.Layout

namespace RegAtlas.CHeader.MacroMap

def blockDefines (lead : String) (b : BlockTemplate) : List Define :=
  (b.instances.entries.map fun (name, start) =>
    ⟨lead ++ "_" ++ macroName b.name ++ "_INSTANCE_" ++ macroName name, .plain start,
      s!"Start of {b.name} instance {name}"⟩) ++
  b.registersByOffset.map fun t =>
    let name := b.name ++ t.name
    ⟨lead ++ "_" ++ macroName name ++ "__OFFSET", .plain t.offset,
      s!"Offset of {name} register from {b.name} block start"⟩

/-- A block without instances is left out. -/
def blockItems (lead : String) (b : BlockTemplate) : Header :=
  if b.instances.isEmpty then []
  else
    [.blank, .banner s!"{b.name} Register Block"] ++
      (b.docs.multiLine "// ").map .comment ++
      [.defines ((blockDefines lead b).map some)]

def fieldComment (f : Field) : List String :=
  let title := s!"//  - {f.name} [{f.bits.text}]"
  (f.docs.brief.elim title fun brief => title ++ ": " ++ brief) :: f.docs.bodyLines "//      "

def layoutComment (l : Layout) : List String :=
  l.docs.multiLine "// " ++
    if l.fields.isEmpty then [] else "// Fields:" :: l.fieldsByPosition.flatMap fieldComment

def addressDefines (lead : String) (l : Layout) : List Define :=
  l.instances.map fun i =>
    ⟨lead ++ "_" ++ macroName i.name, .plain i.address, s!"{i.name} register address"⟩

def resetDefines (name : String) (l : Layout) : List Define :=
  (l.resetValue.map fun v =>
    ⟨name ++ "__RESET", .plain v, s!"{l.name} register reset value"⟩).toList

def alwaysWriteDefines (name : String) (l : Layout) : List Define :=
  l.alwaysWrite.elim [] fun aw => [
    ⟨name ++ "__ALWAYSWRITE_MASK", .plain aw.bits.mask, s!"{l.name} register always write mask"⟩,
    ⟨name ++ "__ALWAYSWRITE_VALUE", .plain aw.value, s!"{l.name} register always write value"⟩]

def entryDefines (name : String) (l : Layout) (f : Field) : List Define :=
  f.enumeration.elim [] fun e => e.entriesByValue.map fun entry =>
    ⟨name ++ "_" ++ macroName entry.name, .plain entry.value,
      s!"{l.name}.{f.name}: {entry.name}"⟩

/-- Mask and shift of a field, which must not be empty, and its values. -/
def fieldDefines (name : String) (l : Layout) (f : Field) : Except GenerateError (List Define) := do
  let shift ← f.bits.lsb.mapError .bit
  let name := name ++ "_" ++ macroName f.name
  return [⟨name ++ "__MASK", .plain f.mask, s!"{l.name}.{f.name}: bit mask (shifted)"⟩,
    ⟨name ++ "__SHIFT", .decimal shift, s!"{l.name}.{f.name}: bit shift"⟩] ++
    entryDefines name l f

def layoutDefines (lead : String) (l : Layout) : Except GenerateError (List (List Define)) := do
  let name := lead ++ "_" ++ macroName l.name
  let fields ← l.fieldsByPosition.mapM (fieldDefines name l)
  return resetDefines name l :: alwaysWriteDefines name l :: fields

def groupRows (groups : List (List Define)) : List (Option Define) :=
  groups.flatMap fun ds => if ds.isEmpty then [] else none :: ds.map some

def layoutItems (lead : String) (l : Layout) : Except GenerateError Header := do
  let groups ← layoutDefines lead l
  let rows := (addressDefines lead l).map some ++ groupRows groups
  return [.blank, .banner s!"{l.name} Register"] ++ (layoutComment l).map .comment ++
    if rows.isEmpty then [] else [.blank, .defines rows]

def header (m : RegisterMap) (s : Setting) (generator : String) : Except GenerateError Header := do
  let lead := s.config.macroLead m
  let layouts ← m.layouts.mapM (layoutItems lead)
  return opening m s generator ++ m.blocks.values.flatMap (blockItems lead) ++ layouts.flatten ++
    closing m s

end RegAtlas.CHeader.MacroMap
