import RegAtlas.Layout

namespace RegAtlas

namespace Table

variable {κ α β : Type} [Ord κ] (f : κ → α → β) (t : Table κ α)

@[simp] theorem isEmpty_map : (t.map f).isEmpty = t.isEmpty := List.isEmpty_map

theorem values_map_values (f : α → β) : (t.map fun _ => f).values = t.values.map f := by
  simp only [values, map, List.map_map, Function.comp_def]

end Table

def EnumEntry.undocumented (e : EnumEntry) : EnumEntry := { e with docs := .none }

def Enumeration.undocumented (e : Enumeration) : Enumeration :=
  { e with docs := .none, entries := e.entries.map fun _ => EnumEntry.undocumented }

def Field.undocumented (f : Field) : Field :=
  { f with docs := .none, enumeration := f.enumeration.map Enumeration.undocumented }

def Register.undocumented (r : Register) : Register :=
  { r with docs := .none, fields := r.fields.map fun _ => Field.undocumented }

def TemplateRegister.undocumented (t : TemplateRegister) : TemplateRegister :=
  { t with docs := .none, fields := t.fields.map fun _ => Field.undocumented }

def BlockTemplate.undocumented (b : BlockTemplate) : BlockTemplate :=
  { b with docs := .none, registers := b.registers.map fun _ => TemplateRegister.undocumented }

/-- The map with neither documentation nor remarks on the listing that it comes from. -/
def RegisterMap.undocumented (m : RegisterMap) : RegisterMap :=
  { m with
    docs := .none
    author := none
    note := none
    registers := m.registers.map fun _ => Register.undocumented
    enums := m.enums.map fun _ => Enumeration.undocumented
    blocks := m.blocks.map fun _ => BlockTemplate.undocumented }

def Layout.undocumented (l : Layout) : Layout :=
  { l with docs := .none, fields := l.fields.map fun _ => Field.undocumented }

section Order

theorem Enumeration.entriesByValue_undocumented (e : Enumeration) :
    e.undocumented.entriesByValue = e.entriesByValue.map EnumEntry.undocumented := by
  rw [entriesByValue, entriesByValue, undocumented, Table.values_map_values]
  symm
  exact List.map_mergeSort fun _ _ _ _ => rfl

theorem Field.byPosition_undocumented (fields : Named Field) :
    byPosition (fields.map fun _ => undocumented) = (byPosition fields).map undocumented := by
  rw [byPosition, byPosition, Table.values_map_values]
  symm
  exact List.map_mergeSort fun _ _ _ _ => rfl

theorem RegisterMap.registersByAddress_undocumented (m : RegisterMap) :
    m.undocumented.registersByAddress = m.registersByAddress.map Register.undocumented := by
  rw [registersByAddress, registersByAddress, undocumented, Table.values_map_values]
  symm
  exact List.map_mergeSort fun _ _ _ _ => rfl

theorem BlockTemplate.registersByOffset_undocumented (b : BlockTemplate) :
    b.undocumented.registersByOffset = b.registersByOffset.map TemplateRegister.undocumented := by
  rw [registersByOffset, registersByOffset, undocumented, Table.values_map_values]
  symm
  exact List.map_mergeSort fun _ _ _ _ => rfl

end Order

theorem Field.localEnum_undocumented (f : Field) :
    f.undocumented.localEnum = f.localEnum.map Enumeration.undocumented := by
  rw [localEnum, localEnum, undocumented, Option.filter_map]
  rfl

theorem Layout.fieldsByPosition_undocumented (l : Layout) :
    l.undocumented.fieldsByPosition = l.fieldsByPosition.map Field.undocumented :=
  Field.byPosition_undocumented l.fields

theorem Layout.localEnums_undocumented (l : Layout) : l.undocumented.localEnums =
    l.localEnums.map fun (f, e) => (f.undocumented, e.undocumented) := by
  rw [localEnums, localEnums, fieldsByPosition_undocumented, List.filterMap_map,
    List.map_filterMap]
  congr 1
  funext f
  rw [Function.comp_apply, Field.localEnum_undocumented, Option.map_map, Option.map_map]
  rfl

theorem RegisterMap.layouts_undocumented (m : RegisterMap) :
    m.undocumented.layouts = m.layouts.map Layout.undocumented := by
  have hregisters : (m.undocumented.registersByAddress.filter (·.origin.isNone)).map
      Layout.ofRegister = ((m.registersByAddress.filter (·.origin.isNone)).map
        Layout.ofRegister).map Layout.undocumented := by
    rw [registersByAddress_undocumented, List.filter_map, List.map_map, List.map_map]
    rfl
  have htemplates (b : BlockTemplate) :
      b.undocumented.registersByOffset.map (Layout.ofTemplate b.undocumented) =
        (b.registersByOffset.map (Layout.ofTemplate b)).map Layout.undocumented := by
    rw [BlockTemplate.registersByOffset_undocumented, List.map_map, List.map_map]
    rfl
  have hblocks : m.undocumented.blocks.values = m.blocks.values.map BlockTemplate.undocumented :=
    Table.values_map_values _ _
  rw [layouts, layouts, hregisters, hblocks, List.flatMap_map, List.map_append, List.map_flatMap]
  simp only [htemplates]

end RegAtlas
