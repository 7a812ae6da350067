import RegAtlas.Proofs.CHeader.Content
import RegAtlas.Proofs.Undocumented

namespace RegAtlas.CHeader

def EnumDecl.bare (d : EnumDecl) : EnumDecl :=
  ⟨d.tag, .none, d.entries.map fun e => ⟨e.name, e.value, .none⟩⟩

def StructDecl.bare (d : StructDecl) : StructDecl :=
  ⟨d.tag, .none, d.members.map fun m => ⟨m.name, m.type, m.width, .none⟩⟩

/-- The item without the texts that say nothing to C. -/
def Item.bare : Item → Header
  | fileComment _ => [.fileComment []]
  | comment _ => []
  | enumeration decl => [.enumeration decl.bare]
  | struct decl => [.struct decl.bare]
  | item => [item]

def Header.bare (h : Header) : Header := h.flatMap Item.bare

namespace Header

variable (h h' : Header)

theorem bare_append : bare (h ++ h') = bare h ++ bare h' := List.flatMap_append

theorem bare_flatMap {α : Type} (as : List α) (f : α → Header) :
    bare (as.flatMap f) = as.flatMap fun a => bare (f a) := List.flatMap_assoc

theorem bare_ite (c : Prop) [Decidable c] :
    bare (if c then h else h') = if c then bare h else bare h' := apply_ite _ _ _ _

theorem bare_comments (ls : List String) : bare (ls.map .comment) = [] := by
  rw [bare, List.flatMap_map]
  exact List.flatMap_eq_nil_iff.2 fun _ _ => rfl

end Header

open Header (bare_append bare_comments bare_flatMap bare_ite)

theorem bare_opening (m : RegisterMap) (s : Setting) (generator : String) :
    Header.bare (opening m.undocumented s generator) = Header.bare (opening m s generator) := by
  unfold opening
  rw [bare_append, bare_append, bare_append, bare_append]
  rfl

namespace FuncPack

variable (n : Naming) (bitFields : Bool) (l : Layout)

theorem bare_enumDecl (base : String) (e : Enumeration) :
    (enumDecl n base e.undocumented).bare = (enumDecl n base e).bare := by
  simp only [enumDecl, EnumDecl.bare, Enumeration.entriesByValue_undocumented, List.map_map]
  rfl

theorem bare_sharedEnumItems (m : RegisterMap) :
    Header.bare (sharedEnumItems n m.undocumented) = Header.bare (sharedEnumItems n m) := by
  have hvalues : m.undocumented.enums.values = m.enums.values.map Enumeration.undocumented :=
    Table.values_map_values _ _
  have hempty : m.undocumented.enums.isEmpty = m.enums.isEmpty := Table.isEmpty_map _ _
  have hitems (e : Enumeration) :
      Header.bare [.blank, .enumeration (enumDecl n e.undocumented.name e.undocumented)] =
        Header.bare [.blank, .enumeration (enumDecl n e.name e)] := by
    change [Item.blank, .enumeration _] = [Item.blank, .enumeration _]
    rw [bare_enumDecl]
    rfl
  unfold sharedEnumItems
  rw [hempty, hvalues, List.flatMap_map, bare_ite, bare_ite, bare_append, bare_append, bare_flatMap,
    bare_flatMap]
  simp only [hitems]

theorem bare_localEnumItems :
    Header.bare (localEnumItems n l.undocumented) = Header.bare (localEnumItems n l) := by
  have hitems (e : Enumeration) :
      Header.bare [.blank, .enumeration (enumDecl n (n.enumBase l.undocumented e.undocumented)
        e.undocumented)] = Header.bare [.blank, .enumeration (enumDecl n (n.enumBase l e) e)] := by
    change [Item.blank, .enumeration _] = [Item.blank, .enumeration _]
    rw [bare_enumDecl]
    rfl
  unfold localEnumItems
  rw [Layout.localEnums_undocumented, List.flatMap_map, bare_flatMap, bare_flatMap]
  simp only [hitems]

theorem typeOf_undocumented (f : Field) :
    typeOf n l.undocumented f.undocumented = typeOf n l f := by
  unfold typeOf Field.undocumented
  cases f.enumeration <;> rfl

theorem packSteps_undocumented :
    (codec n bitFields l.undocumented).packSteps = (codec n bitFields l).packSteps := by
  simp only [codec, Layout.fieldsByPosition_undocumented, List.map_map]
  rfl

theorem unpackSteps_undocumented :
    (codec n bitFields l.undocumented).unpackSteps = (codec n bitFields l).unpackSteps := by
  have hsteps (f : Field) :
      unpackStepOf n l.undocumented f.undocumented = unpackStepOf n l f := by
    rw [unpackStepOf, typeOf_undocumented]
    rfl
  simp only [codec, Layout.fieldsByPosition_undocumented, List.map_map, Function.comp_def, hsteps]

theorem bare_struct :
    StructDecl.bare ⟨(codec n bitFields l.undocumented).tag, l.undocumented.docs,
      (codec n bitFields l.undocumented).members⟩ =
    StructDecl.bare ⟨(codec n bitFields l).tag, l.docs, (codec n bitFields l).members⟩ := by
  simp only [StructDecl.bare, codec, Layout.fieldsByPosition_undocumented, List.map_map,
    Function.comp_def, memberOf, typeOf_undocumented]
  rfl

theorem bare_structItemsOf : Header.bare (structItemsOf n bitFields l.undocumented) =
    Header.bare (structItemsOf n bitFields l) := by
  dsimp only [structItemsOf]
  rw [packSteps_undocumented, unpackSteps_undocumented]
  change Item.blank :: .struct (StructDecl.bare _) :: _ =
    Item.blank :: .struct (StructDecl.bare _) :: _
  rw [bare_struct]
  rfl

theorem bare_itemsOf :
    Header.bare (itemsOf n bitFields l.undocumented) = Header.bare (itemsOf n bitFields l) := by
  have hdefines : layoutDefines n l.undocumented = layoutDefines n l := rfl
  have hempty : l.undocumented.fields.isEmpty = l.fields.isEmpty := Table.isEmpty_map _ _
  unfold itemsOf
  rw [hdefines, hempty]
  simp only [bare_append, bare_ite, bare_localEnumItems, bare_structItemsOf]
  rfl

theorem dispatchItems_undocumented (ls : List Layout) :
    dispatchItems n (ls.map Layout.undocumented) = dispatchItems n ls := by
  unfold dispatchItems dispatch
  rw [List.isEmpty_map, List.map_map, List.map_map, List.map_map]
  rfl

theorem packedLayouts_undocumented (m : RegisterMap) :
    packedLayouts m.undocumented = (packedLayouts m).map Layout.undocumented := by
  have hempty (l : Layout) : l.undocumented.fields.isEmpty = l.fields.isEmpty :=
    Table.isEmpty_map _ _
  rw [packedLayouts, packedLayouts, RegisterMap.layouts_undocumented, List.filter_map]
  simp only [Function.comp_def, hempty]

/-- All that documentation does to a header of structs is to be shown in it. -/
theorem bare_headerOf (m : RegisterMap) (s : Setting) (generator : String) :
    Header.bare (headerOf m.undocumented s generator) = Header.bare (headerOf m s generator) := by
  have hnaming : Naming.of m.undocumented s.config = Naming.of m s.config := rfl
  have hclosing : closing m.undocumented s = closing m s := rfl
  dsimp only [headerOf]
  rw [hnaming, hclosing, packedLayouts_undocumented, dispatchItems_undocumented,
    RegisterMap.layouts_undocumented, List.flatMap_map]
  simp only [bare_append, bare_flatMap, bare_opening, bare_sharedEnumItems, bare_itemsOf]

end FuncPack

namespace MacroMap

variable (lead : String) (l : Layout)

theorem blockDefines_undocumented (b : BlockTemplate) :
    blockDefines lead b.undocumented = blockDefines lead b := by
  rw [blockDefines, blockDefines, BlockTemplate.registersByOffset_undocumented, List.map_map]
  rfl

theorem bare_blockItems (b : BlockTemplate) :
    Header.bare (blockItems lead b.undocumented) = Header.bare (blockItems lead b) := by
  have hempty : b.undocumented.instances.isEmpty = b.instances.isEmpty := rfl
  unfold blockItems
  rw [hempty, bare_ite, bare_ite, blockDefines_undocumented, bare_append, bare_append, bare_append,
    bare_append, bare_comments, bare_comments]
  rfl

theorem fieldDefinesOf_undocumented (name : String) (f : Field) :
    fieldDefinesOf name l.undocumented f.undocumented = fieldDefinesOf name l f := by
  have hentries : entryDefines (name ++ "_" ++ macroName f.name) l.undocumented f.undocumented =
      entryDefines (name ++ "_" ++ macroName f.name) l f := by
    unfold entryDefines Field.undocumented
    cases f.enumeration with
    | none => rfl
    | some e =>
      simp only [Option.map_some, Option.elim_some, Enumeration.entriesByValue_undocumented,
        List.map_map]
      rfl
  dsimp only [fieldDefinesOf]
  exact congrArg (_ ++ ·) hentries

theorem rowsOf_undocumented : rowsOf lead l.undocumented = rowsOf lead l := by
  have hgroups : groupsOf lead l.undocumented = groupsOf lead l := by
    simp only [groupsOf, Layout.fieldsByPosition_undocumented, List.map_map, Function.comp_def,
      fieldDefinesOf_undocumented]
    rfl
  rw [rowsOf, rowsOf, hgroups]
  rfl

theorem bare_itemsOf :
    Header.bare (itemsOf lead l.undocumented) = Header.bare (itemsOf lead l) := by
  unfold itemsOf
  rw [rowsOf_undocumented, bare_append, bare_append, bare_append, bare_append, bare_comments,
    bare_comments]
  rfl

theorem bare_headerOf (m : RegisterMap) (s : Setting) (generator : String) :
    Header.bare (headerOf m.undocumented s generator) = Header.bare (headerOf m s generator) := by
  have hlead : s.config.macroLead m.undocumented = s.config.macroLead m := rfl
  have hclosing : closing m.undocumented s = closing m s := rfl
  have hblocks : m.undocumented.blocks.values = m.blocks.values.map BlockTemplate.undocumented :=
    Table.values_map_values _ _
  dsimp only [headerOf]
  rw [hlead, hclosing, hblocks, RegisterMap.layouts_undocumented, List.flatMap_map,
    List.flatMap_map]
  simp only [bare_append, bare_flatMap, bare_opening, bare_blockItems, bare_itemsOf]

end MacroMap

end RegAtlas.CHeader
