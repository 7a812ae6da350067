import RegAtlas.RegisterMap

namespace RegAtlas

structure Edit where
  address : Option (Option Word)
  width : Option Nat
  resetValue : Option (Option Word)
  alwaysWrite : Option (Option AlwaysWrite)
  fieldBits : Option (String × BitSet)
deriving Repr, DecidableEq

namespace Edit

def fields (e : Edit) (fs : Named Field) : Named Field :=
  match e.fieldBits with
  | none => fs
  | some (name, bits) => fs.modify name fun f => { f with bits := bits }

def register (e : Edit) (r : Register) : Register :=
  { r with
    address := e.address.getD r.address
    width := e.width.getD r.width
    resetValue := e.resetValue.getD r.resetValue
    alwaysWrite := e.alwaysWrite.getD r.alwaysWrite
    fields := e.fields r.fields }

def template (e : Edit) (t : TemplateRegister) : TemplateRegister :=
  { t with
    width := e.width.getD t.width
    resetValue := e.resetValue.getD t.resetValue
    alwaysWrite := e.alwaysWrite.getD t.alwaysWrite
    fields := e.fields t.fields }

end Edit

namespace RegisterMap

def editRegister (m : RegisterMap) (name : String) (e : Edit) : RegisterMap :=
  { m with registers := m.registers.modify name e.register }

def editTemplate (m : RegisterMap) (block name : String) (e : Edit) : RegisterMap :=
  { m with
    blocks := m.blocks.modify block fun b =>
      { b with registers := b.registers.modify name e.template } }

end RegisterMap

end RegAtlas
