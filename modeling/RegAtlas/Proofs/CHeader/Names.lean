import RegAtlas.Proofs.CHeader.Content
import RegAtlas.Proofs.CHeader.Spelling

namespace RegAtlas

namespace CHeader

namespace Item

def isDeclaration : Item → Bool
  | guardStart _ | defines _ | enumeration _ | struct _ | function _ | dispatch _ => true
  | _ => false

def macros : Item → List String
  | guardStart name => [name]
  | defines rows => rows.filterMap (·.map Define.name)
  | dispatch d => [d.name]
  | _ => []

/-- The tags of enumerations and structs, which C keeps in one name space. -/
def tags : Item → List String
  | enumeration decl => [decl.tag]
  | struct decl => [decl.tag]
  | _ => []

def enumerators : Item → List String
  | enumeration decl => decl.entries.map Enumerator.name
  | _ => []

def functions : Item → List String
  | function f => [f.name]
  | _ => []

variable {item : Item}

theorem macros_eq_nil (h : item.isDeclaration = false) : item.macros = [] := by
  cases item <;> first | rfl | cases h

theorem tags_eq_nil (h : item.isDeclaration = false) : item.tags = [] := by
  cases item <;> first | rfl | cases h

theorem enumerators_eq_nil (h : item.isDeclaration = false) : item.enumerators = [] := by
  cases item <;> first | rfl | cases h

theorem functions_eq_nil (h : item.isDeclaration = false) : item.functions = [] := by
  cases item <;> first | rfl | cases h

end Item

namespace Header

def macros (h : Header) : List String := h.flatMap Item.macros

def tags (h : Header) : List String := h.flatMap Item.tags

def enumerators (h : Header) : List String := h.flatMap Item.enumerators

def functions (h : Header) : List String := h.flatMap Item.functions

end Header

theorem Header.flatMap_declarations {α : Type} {v : Item → List α}
    (hv : ∀ item, item.isDeclaration = false → v item = []) (h : Header) :
    (h.filter Item.isDeclaration).flatMap v = h.flatMap v := by
  induction h with
  | nil => rfl
  | cons item h ih =>
    cases hitem : item.isDeclaration with
    | true => rw [List.filter_cons_of_pos hitem, List.flatMap_cons, List.flatMap_cons, ih]
    | false =>
      rw [List.filter_cons_of_neg (Bool.not_eq_true _ ▸ hitem), List.flatMap_cons, hv item hitem,
        ih]
      rfl

/-- What the name of the guard is made of. -/
def guardText (m : RegisterMap) (s : Setting) : String :=
  "REGGEN_" ++ s.outputName.getD (m.name ++ "_H")

def Stem.full (lead : String) (s : Stem) : String := lead ++ "_" ++ s.text

/-- No two macros with these stems have one name, and none has that of the guard. -/
structure Distinct (guard lead : String) (stems : List Stem) : Prop where
  apart : Apart stems
  guard : ∀ s ∈ stems, ¬Alike guard (s.full lead)

instance (guard lead : String) (stems : List Stem) : Decidable (Distinct guard lead stems) :=
  decidable_of_iff (Apart stems ∧ ∀ s ∈ stems, ¬Alike guard (s.full lead))
    ⟨fun h => ⟨h.1, h.2⟩, fun h => ⟨h.apart, h.guard⟩⟩

def macrosOf (m : RegisterMap) (s : Setting) (stems : List Stem) : List String :=
  stems.map fun stem => macroName (stem.full (s.config.leadFor m))

section Frame

variable {m : RegisterMap} {s : Setting} {generator : String} {stems stems' : List Stem}

theorem macroName_underscore : macroName "_" = "_" := by decide +kernel

theorem Stem.macroName_full (m : RegisterMap) (s : Setting) (stem : Stem) :
    macroName (stem.full (s.config.leadFor m)) =
      s.config.macroLead m ++ "_" ++ macroName stem.base ++ stem.ending.text := by
  rw [full, macroName_append, macroName_append, macroName_underscore, macroName_text,
    ← String.append_assoc]
  rfl

theorem macrosOf_append :
    macrosOf m s (stems ++ stems') = macrosOf m s stems ++ macrosOf m s stems' :=
  List.map_append

theorem macrosOf_flatMap {α : Type} {f : α → List Stem} {as : List α} :
    macrosOf m s (as.flatMap f) = as.flatMap fun a => macrosOf m s (f a) :=
  List.map_flatMap

theorem guardName_eq (m : RegisterMap) (s : Setting) :
    guardName m s = macroName (guardText m s) := by
  have hlead : macroName "REGGEN_" = "REGGEN_" := by decide +kernel
  have hend : macroName "_H" = "_H" := by decide +kernel
  unfold guardName guardText
  cases s.outputName with
  | none => simp [macroName_append, hlead, hend, String.append_assoc]
  | some file => simp [macroName_append, hlead]

theorem opening_declarations : (opening m s generator).filter Item.isDeclaration =
    [.guardStart (guardName m s)] := by
  cases h : s.config.formatGuard <;>
    simp [opening, h, Item.isDeclaration, List.filter_cons, List.filter_map, Function.comp_def]

theorem closing_declarations : (closing m s).filter Item.isDeclaration = [] := by
  cases h : s.config.formatGuard <;> simp [closing, h, Item.isDeclaration]

theorem flatMap_opening {α : Type} {v : Item → List α}
    (hv : ∀ item, item.isDeclaration = false → v item = []) :
    (opening m s generator).flatMap v = v (.guardStart (guardName m s)) := by
  rw [← Header.flatMap_declarations hv, opening_declarations, List.flatMap_singleton]

theorem flatMap_closing {α : Type} {v : Item → List α}
    (hv : ∀ item, item.isDeclaration = false → v item = []) : (closing m s).flatMap v = [] := by
  rw [← Header.flatMap_declarations hv, closing_declarations, List.flatMap_nil]

theorem macros_nodup_iff : (guardName m s :: macrosOf m s stems).Nodup ↔
    Distinct (guardText m s) (s.config.leadFor m) stems := by
  have hnames : guardName m s :: macrosOf m s stems =
      (guardText m s :: stems.map (Stem.full (s.config.leadFor m))).map macroName := by
    simp [guardName_eq, macrosOf]
  rw [hnames, macroNames_nodup_iff, List.pairwise_cons, List.pairwise_map]
  simp only [Stem.full, alike_append_left, List.forall_mem_map, Stem.pairwise_not_alike_iff]
  exact ⟨fun h => ⟨h.2, h.1⟩, fun h => ⟨h.guard, h.apart⟩⟩

end Frame

namespace MacroMap

variable {m : RegisterMap} {s : Setting} {generator : String}

def blockStems (b : BlockTemplate) : List Stem :=
  if b.instances.isEmpty then []
  else
    b.instances.entries.map (fun e => ⟨b.name ++ "_INSTANCE_" ++ e.1, .plain⟩) ++
      b.registersByOffset.map fun t => ⟨b.name ++ t.name, .offset⟩

def entryStems (base : String) (f : Field) : List Stem :=
  f.enumeration.elim [] fun e =>
    e.entriesByValue.map fun entry => ⟨base ++ "_" ++ entry.name, .plain⟩

def fieldStems (l : Layout) (f : Field) : List Stem :=
  let base := l.name ++ "_" ++ f.name
  [⟨base, .mask⟩, ⟨base, .shift⟩] ++ entryStems base f

def layoutStems (l : Layout) : List Stem :=
  l.instances.map (fun i => ⟨i.name, .plain⟩) ++
    (l.resetValue.map fun _ => ⟨l.name, .reset⟩).toList ++
    l.alwaysWrite.elim [] (fun _ => [⟨l.name, .fixedMask⟩, ⟨l.name, .fixedValue⟩]) ++
    l.fieldsByPosition.flatMap (fieldStems l)

/-- The stems of all macros but the guard. -/
def stems (m : RegisterMap) : List Stem :=
  m.blocks.values.flatMap blockStems ++ m.layouts.flatMap layoutStems

theorem blockItems_macros (b : BlockTemplate) :
    (blockItems (s.config.macroLead m) b).flatMap Item.macros = macrosOf m s (blockStems b) := by
  have hinfix : macroName "_INSTANCE_" = "_INSTANCE_" := by decide +kernel
  unfold blockItems blockStems
  cases b.instances.isEmpty with
  | true => rfl
  | false =>
    simp [Item.macros, blockDefines, macrosOf, Stem.macroName_full, Ending.text, macroName_append,
      hinfix, List.flatMap_map, Function.comp_def, String.append_assoc]

theorem addressDefines_names (l : Layout) :
    (addressDefines (s.config.macroLead m) l).map Define.name =
      macrosOf m s (l.instances.map fun i => ⟨i.name, .plain⟩) := by
  simp [addressDefines, macrosOf, Stem.macroName_full, Ending.text]

theorem resetDefines_names (l : Layout) :
    (resetDefines (s.config.macroLead m ++ "_" ++ macroName l.name) l).map Define.name =
      macrosOf m s (l.resetValue.map fun _ => ⟨l.name, .reset⟩).toList := by
  cases h : l.resetValue <;> simp [resetDefines, h, macrosOf, Stem.macroName_full, Ending.text]

theorem alwaysWriteDefines_names (l : Layout) :
    (alwaysWriteDefines (s.config.macroLead m ++ "_" ++ macroName l.name) l).map Define.name =
      macrosOf m s
        (l.alwaysWrite.elim [] fun _ => [⟨l.name, .fixedMask⟩, ⟨l.name, .fixedValue⟩]) := by
  cases h : l.alwaysWrite <;>
    simp [alwaysWriteDefines, h, macrosOf, Stem.macroName_full, Ending.text]

theorem fieldDefines_names (l : Layout) (f : Field) :
    (fieldDefinesOf (s.config.macroLead m ++ "_" ++ macroName l.name) l f).map Define.name =
      macrosOf m s (fieldStems l f) := by
  cases h : f.enumeration <;>
    simp [fieldDefinesOf, entryDefines, fieldStems, entryStems, h, macrosOf, Stem.macroName_full,
      Ending.text, macroName_append, macroName_underscore, String.append_assoc]

theorem groupRows_names (groups : List (List Define)) :
    (groupRows groups).filterMap (·.map Define.name) = groups.flatten.map Define.name := by
  induction groups with
  | nil => rfl
  | cons ds groups ih =>
    cases ds <;> simp_all [groupRows, List.filterMap_map]

theorem groups_names (l : Layout) :
    (groupsOf (s.config.macroLead m) l).flatten.map Define.name =
      macrosOf m s ((l.resetValue.map fun _ => ⟨l.name, .reset⟩).toList ++
        (l.alwaysWrite.elim [] fun _ => [⟨l.name, .fixedMask⟩, ⟨l.name, .fixedValue⟩]) ++
        l.fieldsByPosition.flatMap (fieldStems l)) := by
  rw [groupsOf, List.flatten_cons, List.flatten_cons, List.map_append, List.map_append,
    resetDefines_names, alwaysWriteDefines_names, ← List.flatMap_def, List.map_flatMap,
    macrosOf_append, macrosOf_append, macrosOf_flatMap, List.append_assoc]
  simp only [fieldDefines_names]

theorem rowsOf_names (l : Layout) :
    (rowsOf (s.config.macroLead m) l).filterMap (·.map Define.name) =
      macrosOf m s (layoutStems l) := by
  rw [rowsOf, List.filterMap_append, groupRows_names, groups_names, List.filterMap_map]
  simp only [Function.comp_def, Option.map_some, List.filterMap_eq_map', addressDefines_names]
  rw [← macrosOf_append, layoutStems, List.append_assoc, List.append_assoc, List.append_assoc]

theorem itemsOf_macros (l : Layout) :
    (itemsOf (s.config.macroLead m) l).flatMap Item.macros = macrosOf m s (layoutStems l) := by
  rw [← rowsOf_names, itemsOf]
  cases h : rowsOf (s.config.macroLead m) l <;> simp [Item.macros, List.flatMap_map]

theorem headerOf_macros :
    (headerOf m s generator).macros = guardName m s :: macrosOf m s (stems m) := by
  have hv (item : Item) := item.macros_eq_nil
  simp [Header.macros, headerOf, List.flatMap_append, List.flatMap_assoc, flatMap_opening hv,
    flatMap_closing hv, Item.macros, blockItems_macros, itemsOf_macros, stems, macrosOf_append,
    macrosOf_flatMap]

/-- In a header of macros no two have one name exactly if the names of the elements behind them are
told apart by more than case, and by more than where an underscore joins them. -/
theorem macros_of_build {listing : Listing} (h : listing.build.result = .ok m) (s : Setting)
    (generator : String) : ∃ header, MacroMap.header m s generator = .ok header ∧
      header.macros = guardName m s :: macrosOf m s (stems m) ∧
      (header.macros.Nodup ↔ Distinct (guardText m s) (s.config.leadFor m) (stems m)) := by
  refine ⟨_, header_eq h s generator, headerOf_macros, ?_⟩
  rw [headerOf_macros, macros_nodup_iff]

end MacroMap

end CHeader

def Register.plain (name : String) (address : Word) (fields : Named Field) : Register :=
  ⟨name, some address, 8, fields, none, none, none, .none⟩

def RegisterMap.ofRegisters (enums : Named Enumeration) (registers : Named Register) :
    RegisterMap :=
  ⟨"chip", .none, none, none, some 8, registers, enums, .empty⟩

namespace Listing

def registerAt (address : Word) (fields : Named FieldSpec) : Entry :=
  .register ⟨fields, some address, none, none, none, none, none, none⟩

def ofRegisters (enums : Named SharedEnumSpec) (registers : Named Entry) : Listing :=
  ⟨"chip", some 8, none, none, none, none, registers, enums, .empty⟩

def valve : Listing := ofRegisters .empty <| .ofList [("STATUS", registerAt 0x10#64 <| .ofList
  [("VALVE", ⟨.bit 7, none, none, none, some (.own (.ofList [("OPEN", ⟨1#64, none, none⟩)]))⟩)])]

def twins : Listing := ofRegisters .empty <| .ofList
  [("CTRL", registerAt 0x10#64 .empty), ("ctrl", registerAt 0x14#64 .empty)]

end Listing

def Enumeration.valve : Enumeration :=
  ⟨"VALVE", false, .none, .ofList [("OPEN", ⟨"OPEN", 1#64, .none⟩)]⟩

def Field.valve : Field := ⟨"VALVE", .ofPositions [7], [], .none, some .valve⟩

def Register.valve : Register := .plain "STATUS" 0x10#64 (.ofList [("VALVE", .valve)])

theorem Enumeration.valve_entriesByValue : valve.entriesByValue = [⟨"OPEN", 1#64, .none⟩] :=
  List.mergeSort_singleton _

theorem Register.valve_fieldsByPosition : (Layout.ofRegister valve).fieldsByPosition = [.valve] :=
  List.mergeSort_singleton _

namespace RegisterMap

def valve : RegisterMap := ofRegisters .empty (.ofList [("STATUS", .valve)])

def twins : RegisterMap := ofRegisters .empty <| .ofList
  [("CTRL", .plain "CTRL" 0x10#64 .empty), ("ctrl", .plain "ctrl" 0x14#64 .empty)]

theorem build_valve : Listing.valve.build.result = .ok valve := by decide +kernel

theorem build_twins : Listing.twins.build.result = .ok twins := by decide +kernel

theorem valve_layouts : valve.layouts = [.ofRegister .valve] :=
  layouts_of_ascending rfl (List.pairwise_singleton ..)

theorem twins_layouts : twins.layouts =
    [.ofRegister (.plain "CTRL" 0x10#64 .empty), .ofRegister (.plain "ctrl" 0x14#64 .empty)] :=
  layouts_of_ascending rfl (List.pairwise_pair.2 ⟨_, _, rfl, rfl, by decide⟩)

end RegisterMap

namespace CHeader

namespace MacroMap

theorem stems_valve : stems .valve = [⟨"STATUS", .plain⟩, ⟨"STATUS_VALVE", .mask⟩,
    ⟨"STATUS_VALVE", .shift⟩, ⟨"STATUS_VALVE_OPEN", .plain⟩] := by
  rw [stems, RegisterMap.valve_layouts, List.flatMap_singleton, layoutStems,
    Register.valve_fieldsByPosition, List.flatMap_singleton, fieldStems]
  simp only [entryStems, Field.valve, Option.elim_some, Enumeration.valve_entriesByValue]
  rfl

theorem layoutStems_plain (name : String) (address : Word) :
    layoutStems (.ofRegister (.plain name address .empty)) = [⟨name, .plain⟩] := by
  have hfields : (Layout.ofRegister (.plain name address .empty)).fieldsByPosition = [] :=
    List.mergeSort_nil
  rw [layoutStems, hfields]
  rfl

theorem stems_twins : stems .twins = [⟨"CTRL", .plain⟩, ⟨"ctrl", .plain⟩] := by
  rw [stems, RegisterMap.twins_layouts, List.flatMap_cons, List.flatMap_singleton,
    layoutStems_plain, layoutStems_plain]
  rfl

theorem valve_macros : ∃ m header, Listing.valve.build.result = .ok m ∧
    MacroMap.header m default "c.macromap" = .ok header ∧
    header.macros = ["REGGEN_CHIP_H", "CHIP_STATUS", "CHIP_STATUS_VALVE__MASK",
      "CHIP_STATUS_VALVE__SHIFT", "CHIP_STATUS_VALVE_OPEN"] ∧
    header.macros.Nodup := by
  obtain ⟨header, hheader, hmacros, hnodup⟩ :=
    macros_of_build RegisterMap.build_valve default "c.macromap"
  rw [stems_valve] at hmacros hnodup
  refine ⟨_, header, RegisterMap.build_valve, hheader, ?_, hnodup.2 (by decide +kernel)⟩
  rw [hmacros]
  decide +kernel

/-- Two registers whose names differ in the case of their letters have one macro for two
addresses. -/
theorem twins_collide : ∃ m header, Listing.twins.build.result = .ok m ∧
    MacroMap.header m default "c.macromap" = .ok header ∧
    header.macros = ["REGGEN_CHIP_H", "CHIP_CTRL", "CHIP_CTRL"] ∧ ¬header.macros.Nodup := by
  have hmacros : (headerOf .twins default "c.macromap").macros =
      ["REGGEN_CHIP_H", "CHIP_CTRL", "CHIP_CTRL"] := by
    rw [headerOf_macros, stems_twins]
    decide +kernel
  refine ⟨_, _, RegisterMap.build_twins, header_eq RegisterMap.build_twins default "c.macromap",
    hmacros, ?_⟩
  rw [hmacros]
  decide

end MacroMap

namespace FuncPack

variable {m : RegisterMap} {s : Setting} {generator : String} {n : Naming} {l l' : Layout}

/-- What the tags of a header are made of behind what all of its names start with: the names of
enumerations and of layouts with fields. -/
def tagBases (m : RegisterMap) (n : Naming) : List String :=
  m.enums.values.map (·.name) ++ m.layouts.flatMap fun l =>
    (l.localEnums.map fun e => n.enumBase l e.2) ++ if l.fields.isEmpty then [] else [l.name]

def entryStems (base : String) (e : Enumeration) : List Stem :=
  e.entriesByValue.map fun entry => ⟨base ++ "_" ++ entry.name, .plain⟩

def enumeratorStems (m : RegisterMap) (n : Naming) : List Stem :=
  (m.enums.values.flatMap fun e => entryStems e.name e) ++ m.layouts.flatMap fun l =>
    l.localEnums.flatMap fun e => entryStems (n.enumBase l e.2) e.2

def layoutStems (l : Layout) : List Stem :=
  l.instances.map (fun i => ⟨i.name, .plain⟩) ++ (l.resetValue.map fun _ => ⟨l.name, .reset⟩).toList

def dispatchStems : List Stem := [⟨"OVERWRITE", .plain⟩, ⟨"PACK", .plain⟩, ⟨"UNPACK_INTO", .plain⟩]

def macroStems (m : RegisterMap) (c : Config) : List Stem :=
  m.layouts.flatMap layoutStems ++
    if c.dispatchMacros && !(packedLayouts m).isEmpty then dispatchStems else []

def functionsOf (m : RegisterMap) (n : Naming) : List String :=
  (packedLayouts m).flatMap fun l => operations.map (n.function l)

theorem enumTag_eq (c : Config) (base : String) :
    (Naming.of m c).enumTag base = codeName (c.leadFor m ++ "_" ++ base) := by
  have hunderscore : codeName "_" = "_" := by decide +kernel
  rw [codeName_append, codeName_append, hunderscore]
  rfl

theorem structTag_eq (c : Config) (l : Layout) :
    (Naming.of m c).structTag l = codeName (c.leadFor m ++ "_" ++ l.name) :=
  enumTag_eq c l.name

theorem enumDecl_names (base : String) (e : Enumeration) :
    (enumDecl (.of m s.config) base e).entries.map Enumerator.name =
      macrosOf m s (entryStems base e) := by
  simp [enumDecl, entryStems, macrosOf, Stem.macroName_full, Ending.text, Naming.enumerator,
    Naming.of, macroName_append, macroName_underscore, String.append_assoc]

theorem sharedEnumItems_declarations : (sharedEnumItems n m).filter Item.isDeclaration =
    m.enums.values.map fun e => .enumeration (enumDecl n e.name e) := by
  cases h : m.enums.isEmpty with
  | true =>
    rw [Table.isEmpty, List.isEmpty_iff] at h
    simp [sharedEnumItems, Table.isEmpty, Table.values, h]
  | false =>
    simp [sharedEnumItems, h, Item.isDeclaration, List.filter_cons, List.filter_flatMap,
      List.map_eq_flatMap]

theorem localEnumItems_declarations : (localEnumItems n l).filter Item.isDeclaration =
    l.localEnums.map fun e => .enumeration (enumDecl n (n.enumBase l e.2) e.2) := by
  simp [localEnumItems, Item.isDeclaration, List.filter_cons, List.filter_flatMap,
    List.map_eq_flatMap]

section Views

variable {α : Type} {v : Item → List α} (hv : ∀ item, item.isDeclaration = false → v item = [])
include hv

theorem flatMap_sharedEnumItems : (sharedEnumItems n m).flatMap v =
    m.enums.values.flatMap fun e => v (.enumeration (enumDecl n e.name e)) := by
  rw [← Header.flatMap_declarations hv, sharedEnumItems_declarations, List.flatMap_map]

theorem flatMap_itemsOf (bitFields : Bool) (l : Layout) : (itemsOf n bitFields l).flatMap v =
    (if (layoutDefines n l).isEmpty then [] else v (.defines ((layoutDefines n l).map some))) ++
      (l.localEnums.flatMap fun e => v (.enumeration (enumDecl n (n.enumBase l e.2) e.2))) ++
      if l.fields.isEmpty then [] else (structItemsOf n bitFields l).flatMap v := by
  have hlocal : (localEnumItems n l).flatMap v =
      l.localEnums.flatMap fun e => v (.enumeration (enumDecl n (n.enumBase l e.2) e.2)) := by
    rw [← Header.flatMap_declarations hv, localEnumItems_declarations, List.flatMap_map]
  rw [itemsOf, List.flatMap_append, List.flatMap_append, List.flatMap_append, hlocal]
  cases (layoutDefines n l).isEmpty <;> cases l.fields.isEmpty <;>
    simp [hv .blank rfl, hv (.banner _) rfl]

theorem flatMap_headerOf : (headerOf m s generator).flatMap v =
    v (.guardStart (guardName m s)) ++
      (m.enums.values.flatMap fun e => v (.enumeration (enumDecl (.of m s.config) e.name e))) ++
      (m.layouts.flatMap fun l => (itemsOf (.of m s.config) s.config.bitFields l).flatMap v) ++
      if s.config.dispatchMacros then
        (dispatchItems (.of m s.config) (packedLayouts m)).flatMap v
      else [] := by
  simp only [headerOf, List.flatMap_append, List.flatMap_assoc, flatMap_opening hv,
    flatMap_closing hv, flatMap_sharedEnumItems hv, List.append_nil]
  cases s.config.dispatchMacros <;> rfl

theorem flatMap_dispatchItems (hdispatch : ∀ d, v (.dispatch d) = []) (ls : List Layout) :
    (dispatchItems n ls).flatMap v = [] := by
  unfold dispatchItems
  split
  · rfl
  · simp [dispatch, hdispatch, hv .blank rfl, hv (.banner _) rfl, hv (.brief _) rfl]

end Views

theorem headerOf_tags : (headerOf m s generator).tags =
    (tagBases m (.of m s.config)).map fun base => codeName (s.config.leadFor m ++ "_" ++ base) := by
  have hstruct (l : Layout) : (structItemsOf (.of m s.config) s.config.bitFields l).flatMap
      Item.tags = [codeName (s.config.leadFor m ++ "_" ++ l.name)] := by
    simp [structItemsOf, Item.tags, codec, structTag_eq]
  have hv (item : Item) := item.tags_eq_nil
  rw [Header.tags, flatMap_headerOf hv]
  simp [flatMap_itemsOf hv, hstruct, flatMap_dispatchItems hv fun _ => rfl, tagBases, Item.tags,
    enumDecl, enumTag_eq, List.map_eq_flatMap, List.flatMap_assoc, apply_ite]

theorem headerOf_enumerators : (headerOf m s generator).enumerators =
    macrosOf m s (enumeratorStems m (.of m s.config)) := by
  have hstruct (l : Layout) : (structItemsOf (.of m s.config) s.config.bitFields l).flatMap
      Item.enumerators = [] := by
    simp [structItemsOf, Item.enumerators]
  have hv (item : Item) := item.enumerators_eq_nil
  rw [Header.enumerators, flatMap_headerOf hv]
  simp [flatMap_itemsOf hv, hstruct, flatMap_dispatchItems hv fun _ => rfl, enumeratorStems,
    Item.enumerators, enumDecl_names, macrosOf_append, macrosOf_flatMap]

theorem flatMap_packedLayouts {α : Type} (f : Layout → List α) : (packedLayouts m).flatMap f =
    m.layouts.flatMap fun l => if l.fields.isEmpty then [] else f l := by
  rw [packedLayouts]
  induction m.layouts with
  | nil => rfl
  | cons l ls ih => cases h : l.fields.isEmpty <;> simp [h, ih]

theorem flatMap_nothing {α β : Type} (as : List α) : (as.flatMap fun _ => ([] : List β)) = [] :=
  List.flatMap_eq_nil_iff.2 fun _ _ => rfl

theorem headerOf_functions :
    (headerOf m s generator).functions = functionsOf m (.of m s.config) := by
  have hstruct (l : Layout) : (structItemsOf (.of m s.config) s.config.bitFields l).flatMap
      Item.functions = operations.map ((Naming.of m s.config).function l) := by
    simp [structItemsOf, Item.functions, Function.name, operations]
  have hv (item : Item) := item.functions_eq_nil
  rw [Header.functions, flatMap_headerOf hv, functionsOf, flatMap_packedLayouts]
  simp [flatMap_itemsOf hv, hstruct, flatMap_dispatchItems hv fun _ => rfl, Item.functions,
    flatMap_nothing]

theorem layoutDefines_names (l : Layout) :
    (layoutDefines (.of m s.config) l).map Define.name = macrosOf m s (layoutStems l) := by
  cases h : l.resetValue <;>
    simp [layoutDefines, layoutStems, h, Naming.of, macrosOf, Stem.macroName_full, Ending.text]

theorem itemsOf_macros (bitFields : Bool) (l : Layout) :
    (itemsOf (.of m s.config) bitFields l).flatMap Item.macros = macrosOf m s (layoutStems l) := by
  rw [flatMap_itemsOf fun item => item.macros_eq_nil, ← layoutDefines_names]
  cases layoutDefines (.of m s.config) l <;>
    simp [Item.macros, structItemsOf, flatMap_nothing, List.filterMap_map]

theorem dispatchItems_macros (ls : List Layout) :
    (dispatchItems (.of m s.config) ls).flatMap Item.macros =
      macrosOf m s (if ls.isEmpty then [] else dispatchStems) := by
  have hnames : macroName "OVERWRITE" = "OVERWRITE" ∧ macroName "PACK" = "PACK" ∧
      macroName "UNPACK_INTO" = "UNPACK_INTO" := by decide +kernel
  cases h : ls.isEmpty <;>
    simp [dispatchItems, h, dispatch, dispatchStems, Item.macros, macrosOf, Stem.macroName_full,
      Ending.text, hnames, Naming.of]

theorem headerOf_macros : (headerOf m s generator).macros =
    guardName m s :: macrosOf m s (macroStems m s.config) := by
  rw [Header.macros, flatMap_headerOf fun item => item.macros_eq_nil]
  simp only [itemsOf_macros, dispatchItems_macros, Item.macros, flatMap_nothing, macroStems,
    macrosOf_append, macrosOf_flatMap, List.append_nil]
  cases s.config.dispatchMacros <;> cases (packedLayouts m).isEmpty <;> rfl

theorem function_inj {what what' : String} (hwhat : what ∈ operations) (hwhat' : what' ∈ operations)
    (h : n.function l what = n.function l' what') : Alike l.name l'.name ∧ what = what' := by
  have hsuffix : ∀ what ∈ operations, ∀ what' ∈ operations,
      ("_" ++ what).toList <:+ ("_" ++ what').toList → what = what' := by decide +kernel
  have hfunction (l : Layout) (what : String) :
      (n.function l what).toList = (n.structTag l).toList ++ ("_" ++ what).toList := by
    simp [Naming.function]
  rw [String.ext_iff, hfunction, hfunction] at h
  obtain ⟨htag, hend⟩ := append_inj_of_suffix h fun hends => by
    rcases hends with hends | hends
    · rw [hsuffix _ hwhat _ hwhat' hends]
    · rw [hsuffix _ hwhat' _ hwhat hends]
  refine ⟨?_, hsuffix _ hwhat _ hwhat' (hend ▸ List.suffix_refl _)⟩
  rw [← String.ext_iff, Naming.structTag, Naming.structTag, String.append_right_inj] at htag
  exact codeName_eq_iff.1 htag

theorem functionsOf_nodup_iff :
    (functionsOf m n).Nodup ↔ ((packedLayouts m).map (·.name)).Pairwise (¬Alike · ·) := by
  rw [functionsOf, List.nodup_flatMap, List.pairwise_map]
  constructor
  · refine fun h => h.2.imp fun {l l'} hdisjoint halike => ?_
    have hsame : n.function l "pack" = n.function l' "pack" := by
      rw [Naming.function, Naming.function, Naming.structTag, Naming.structTag,
        codeName_eq_iff.2 halike]
    have hpack : "pack" ∈ operations := by decide
    exact hdisjoint (List.mem_map_of_mem hpack) (hsame ▸ List.mem_map_of_mem hpack)
  · refine fun h => ⟨fun l _ => ?_, h.imp fun {l l'} hne => ?_⟩
    · have hnodup : operations.Nodup := by decide
      exact hnodup.map_on fun what hwhat what' hwhat' heq => (function_inj hwhat hwhat' heq).2
    · intro name hname hname'
      obtain ⟨what, hwhat, rfl⟩ := List.mem_map.1 hname
      obtain ⟨what', hwhat', heq⟩ := List.mem_map.1 hname'
      exact hne (function_inj hwhat hwhat' heq.symm).1

theorem function_ne_macroName {what : String} (hwhat : what ∈ operations) (a : String) :
    n.function l what ≠ macroName a := by
  -- Functions have lower-case letters in their names, and macros have none.
  have hlower : ∀ what ∈ operations, what.toList.any Char.isLower = true := by decide +kernel
  intro heq
  obtain ⟨c, hc, hlower⟩ := List.any_eq_true.1 (hlower what hwhat)
  have hmem : c ∈ (macroName a).toList := by
    rw [← heq, Naming.function, String.toList_append]
    exact List.mem_append_right _ hc
  rw [isLower_of_mem_macroName hmem] at hlower
  cases hlower

theorem function_not_mem_macrosOf {stems : List Stem} {name : String}
    (hname : name ∈ functionsOf m n) : name ∉ guardName m s :: macrosOf m s stems := by
  obtain ⟨l, -, hname⟩ := List.mem_flatMap.1 hname
  obtain ⟨what, hwhat, rfl⟩ := List.mem_map.1 hname
  rw [List.mem_cons, guardName_eq]
  rintro (heq | hmem)
  · exact function_ne_macroName hwhat _ heq
  · obtain ⟨stem, -, heq⟩ := List.mem_map.1 hmem
    exact function_ne_macroName hwhat _ heq.symm

/-- The names that a header of structs and functions declares, and when no two of them in one name
space are one. -/
structure DeclaresNames (m : RegisterMap) (s : Setting) (h : Header) : Prop where
  tags : h.tags = (tagBases m (.of m s.config)).map fun base =>
    codeName (s.config.leadFor m ++ "_" ++ base)
  enumerators : h.enumerators = macrosOf m s (enumeratorStems m (.of m s.config))
  functions : h.functions = functionsOf m (.of m s.config)
  macros : h.macros = guardName m s :: macrosOf m s (macroStems m s.config)
  tags_nodup_iff : h.tags.Nodup ↔ (tagBases m (.of m s.config)).Pairwise (¬Alike · ·)
  others_nodup_iff : (h.enumerators ++ h.functions ++ h.macros).Nodup ↔
    Distinct (guardText m s) (s.config.leadFor m)
      (enumeratorStems m (.of m s.config) ++ macroStems m s.config) ∧
    ((packedLayouts m).map (·.name)).Pairwise (¬Alike · ·)

theorem tagNames_nodup_iff {lead : String} {bases : List String} :
    (bases.map fun base => codeName (lead ++ "_" ++ base)).Nodup ↔ bases.Pairwise (¬Alike · ·) := by
  simp only [List.Nodup, List.pairwise_map, ne_eq, codeName_eq_iff, alike_append_left]

theorem others_nodup_iff {stems stems' : List Stem} :
    (macrosOf m s stems ++ functionsOf m n ++ guardName m s :: macrosOf m s stems').Nodup ↔
      Distinct (guardText m s) (s.config.leadFor m) (stems ++ stems') ∧
        ((packedLayouts m).map (·.name)).Pairwise (¬Alike · ·) := by
  have hperm : (macrosOf m s stems ++ functionsOf m n ++ guardName m s :: macrosOf m s stems').Perm
      (functionsOf m n ++ guardName m s :: macrosOf m s (stems ++ stems')) := by
    rw [List.append_assoc, macrosOf_append]
    refine (List.perm_append_comm_assoc _ _ _).trans (List.Perm.append_left _ ?_)
    exact List.perm_middle
  have hdisjoint : (functionsOf m n).Disjoint (guardName m s :: macrosOf m s (stems ++ stems')) :=
    fun name hname => function_not_mem_macrosOf hname
  rw [hperm.nodup_iff, List.nodup_append', functionsOf_nodup_iff, macros_nodup_iff]
  exact ⟨fun h => ⟨h.2.1, h.1⟩, fun h => ⟨h.2, h.1, hdisjoint⟩⟩

theorem declaresNames_of_build {listing : Listing} (h : listing.build.result = .ok m) (s : Setting)
    (generator : String) : ∃ header, FuncPack.header m s generator = .ok header ∧
      DeclaresNames m s header := by
  refine ⟨_, header_eq h s generator, headerOf_tags, headerOf_enumerators, headerOf_functions,
    headerOf_macros, ?_, ?_⟩
  · rw [headerOf_tags, tagNames_nodup_iff]
  · rw [headerOf_enumerators, headerOf_functions, headerOf_macros, others_nodup_iff]

theorem packedLayouts_valve : packedLayouts .valve = [.ofRegister .valve] := by
  rw [packedLayouts, RegisterMap.valve_layouts]
  rfl

theorem valve_localEnums :
    (Layout.ofRegister .valve).localEnums = [(.valve, .valve)] := by
  rw [Layout.localEnums, Register.valve_fieldsByPosition]
  rfl

theorem tagBases_valve : tagBases .valve (.of .valve .standard) = ["STATUS_VALVE", "STATUS"] := by
  rw [tagBases, RegisterMap.valve_layouts, List.flatMap_singleton, valve_localEnums]
  rfl

theorem enumeratorStems_valve :
    enumeratorStems .valve (.of .valve .standard) = [⟨"STATUS_VALVE_OPEN", .plain⟩] := by
  rw [enumeratorStems, RegisterMap.valve_layouts, List.flatMap_singleton, valve_localEnums,
    List.flatMap_singleton, entryStems, Enumeration.valve_entriesByValue]
  rfl

theorem macroStems_valve :
    macroStems .valve .standard = ⟨"STATUS", .plain⟩ :: dispatchStems := by
  rw [macroStems, packedLayouts_valve, RegisterMap.valve_layouts]
  rfl

theorem valve_declaresNames : ∃ m header, Listing.valve.build.result = .ok m ∧
    FuncPack.header m default "c.funcpack" = .ok header ∧
    header.tags = ["chip_status_valve", "chip_status"] ∧ header.tags.Nodup ∧
    (header.enumerators ++ header.functions ++ header.macros).Nodup := by
  obtain ⟨header, hheader, h⟩ := declaresNames_of_build RegisterMap.build_valve default "c.funcpack"
  have hconfig : (default : Setting).config = .standard := rfl
  refine ⟨_, header, RegisterMap.build_valve, hheader, ?_, h.tags_nodup_iff.2 ?_,
    h.others_nodup_iff.2 ⟨?_, ?_⟩⟩
  · rw [h.tags, hconfig, tagBases_valve]
    decide +kernel
  · rw [hconfig, tagBases_valve]
    decide +kernel
  · rw [hconfig, enumeratorStems_valve, macroStems_valve]
    decide +kernel
  · rw [packedLayouts_valve]
    decide +kernel

end FuncPack

end CHeader

def Listing.modes : Listing :=
  ofRegisters (.ofList [("Mode", ⟨.ofList [("RUN", ⟨1#64, none, none⟩)], none, none⟩)])
    (.ofList [("MODE", registerAt 0x10#64 (.ofList [("EN", ⟨.bit 0, none, none, none, none⟩)]))])

def Register.modes : Register :=
  .plain "MODE" 0x10#64 (.ofList [("EN", ⟨"EN", .ofPositions [0], [], .none, none⟩)])

namespace RegisterMap

def modes : RegisterMap :=
  ofRegisters (.ofList [("Mode", ⟨"Mode", true, .none, .ofList [("RUN", ⟨"RUN", 1#64, .none⟩)]⟩)])
    (.ofList [("MODE", .modes)])

theorem build_modes : Listing.modes.build.result = .ok modes := by decide +kernel

theorem modes_layouts : modes.layouts = [.ofRegister .modes] :=
  layouts_of_ascending rfl (List.pairwise_singleton ..)

end RegisterMap

namespace CHeader

namespace FuncPack

theorem tagBases_modes : tagBases .modes (.of .modes .standard) = ["Mode", "MODE"] := by
  have hlocal : (Layout.ofRegister .modes).localEnums = [] :=
    congrArg (List.filterMap _) (List.mergeSort_singleton _)
  rw [tagBases, RegisterMap.modes_layouts, List.flatMap_singleton, hlocal]
  rfl

theorem modes_clash : ∃ m header, Listing.modes.build.result = .ok m ∧
    FuncPack.header m default "c.funcpack" = .ok header ∧
    header.tags = ["chip_mode", "chip_mode"] ∧ ¬header.tags.Nodup := by
  have hconfig : (default : Setting).config = .standard := rfl
  have htags : (headerOf .modes default "c.funcpack").tags = ["chip_mode", "chip_mode"] := by
    rw [headerOf_tags, hconfig, tagBases_modes]
    decide +kernel
  refine ⟨_, _, RegisterMap.build_modes, header_eq RegisterMap.build_modes default "c.funcpack",
    htags, ?_⟩
  rw [htags]
  decide

end FuncPack

end CHeader

end RegAtlas
