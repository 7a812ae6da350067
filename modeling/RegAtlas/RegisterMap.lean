import RegAtlas.Register

namespace RegAtlas

/-- A register of a block template, `offset` above the start of the block. -/
structure TemplateRegister where
  name : String
  offset : Word
  width : Nat
  fields : Named Field
  resetValue : Option Word
  alwaysWrite : Option AlwaysWrite
  docs : Docs
deriving Repr, DecidableEq

/-- A group of registers that is stamped out once for each of its instances. -/
structure BlockTemplate where
  name : String
  docs : Docs
  registers : Named TemplateRegister
  instances : Named Word
deriving Repr, DecidableEq

structure RegisterMap where
  name : String
  docs : Docs
  author : Option String
  note : Option String
  defaultWidth : Option Nat
  registers : Named Register
  enums : Named Enumeration
  blocks : Named BlockTemplate
deriving Repr, DecidableEq

namespace RegisterMap

def registerAt (m : RegisterMap) (address : Word) : Option Register :=
  m.registers.values.find? (·.address == some address)

/-- Registers with an address ascending by it, then those without ascending by name. -/
def registersByAddress (m : RegisterMap) : List Register :=
  m.registers.values.mergeSort fun a b =>
    match a.address, b.address with
    | some x, some y => x < y || (x == y && a.name ≤ b.name)
    | some _, none => true
    | none, some _ => false
    | none, none => a.name ≤ b.name

def localEnums (m : RegisterMap) : List (Register × Field × Enumeration) :=
  m.registers.values.flatMap fun r =>
    r.fields.values.filterMap fun f => f.localEnum.map fun e => (r, f, e)

end RegisterMap

def BlockTemplate.registersByOffset (b : BlockTemplate) : List TemplateRegister :=
  b.registers.values.mergeSort fun s t => s.offset ≤ t.offset

end RegAtlas
