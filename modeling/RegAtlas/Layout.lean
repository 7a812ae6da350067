import RegAtlas.RegisterMap

namespace RegAtlas

structure LayoutInstance where
  name : String
  address : Word
deriving Repr, DecidableEq

structure Layout where
  name : String
  block : Option String
  offset : Option Word
  width : Nat
  fields : Named Field
  resetValue : Option Word
  alwaysWrite : Option AlwaysWrite
  docs : Docs
  instances : List LayoutInstance
deriving Repr, DecidableEq

namespace Layout

def fieldsByPosition (l : Layout) : List Field := Field.byPosition l.fields

def localEnums (l : Layout) : List (Field × Enumeration) :=
  l.fieldsByPosition.filterMap fun f => f.localEnum.map fun e => (f, e)

def ofRegister (r : Register) : Layout where
  name := r.name
  block := none
  offset := none
  width := r.width
  fields := r.fields
  resetValue := r.resetValue
  alwaysWrite := r.alwaysWrite
  docs := r.docs
  instances := (r.address.map fun a => ⟨r.name, a⟩).toList

def templateInstances (b : BlockTemplate) (t : TemplateRegister) : List LayoutInstance :=
  (b.instances.entries.map fun e => LayoutInstance.mk (e.1 ++ t.name) (e.2 + t.offset)).mergeSort
    fun x y => x.address ≤ y.address

def ofTemplate (b : BlockTemplate) (t : TemplateRegister) : Layout where
  name := b.name ++ t.name
  block := some b.name
  offset := some t.offset
  width := t.width
  fields := t.fields
  resetValue := t.resetValue
  alwaysWrite := t.alwaysWrite
  docs := t.docs
  instances := templateInstances b t

end Layout

/-- Registers of their own in the order of their addresses, then the template registers of each
block in the order of their offsets. -/
def RegisterMap.layouts (m : RegisterMap) : List Layout :=
  (m.registersByAddress.filter (·.origin.isNone)).map Layout.ofRegister ++
    m.blocks.values.flatMap fun b => b.registersByOffset.map (Layout.ofTemplate b)

end RegAtlas
