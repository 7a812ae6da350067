import RegAtlas.CHeader.MacroMap
import RegAtlas.Proofs.CHeader.Packing
import RegAtlas.Proofs.LayoutInstances

namespace RegAtlas

/-- The shared enumerations and those of fields. -/
def RegisterMap.enumerations (m : RegisterMap) : List Enumeration :=
  m.enums.values ++ (m.registers.values.flatMap (·.fields.values) ++
    m.blocks.values.flatMap fun b => b.registers.values.flatMap (·.fields.values)).filterMap
      (·.enumeration)

theorem RegisterMap.mem_enumerations_of_layout {m : RegisterMap} {l : Layout} {f : Field}
    {e : Enumeration} (hl : l ∈ m.layouts) (hf : f ∈ l.fieldsByPosition)
    (he : f.enumeration = some e) : e ∈ m.enumerations := by
  rw [Layout.mem_fieldsByPosition_iff] at hf
  refine List.mem_append_right _ (List.mem_filterMap.2 ⟨f, List.mem_append.2 ?_, he⟩)
  rcases mem_layouts_iff.1 hl with ⟨k, r, hr, -, rfl⟩ | ⟨b, block, k, t, hb, ht, rfl⟩
  · exact .inl (List.mem_flatMap.2 ⟨r, Table.mem_values_iff.2 ⟨k, hr⟩, hf⟩)
  · have hfields : f ∈ block.registers.values.flatMap (·.fields.values) :=
      List.mem_flatMap.2 ⟨t, Table.mem_values_iff.2 ⟨k, ht⟩, hf⟩
    exact .inr (List.mem_flatMap.2 ⟨block, Table.mem_values_iff.2 ⟨b, hb⟩, hfields⟩)

namespace CHeader

variable {listing : Listing} {m : RegisterMap} {l : Layout} {f : Field}

namespace MacroMap

def fieldDefinesOf (name : String) (l : Layout) (f : Field) : List Define :=
  let name := name ++ "_" ++ macroName f.name
  [⟨name ++ "__MASK", .plain f.mask, s!"{l.name}.{f.name}: bit mask (shifted)"⟩,
    ⟨name ++ "__SHIFT", .decimal (FuncPack.shiftOf f), s!"{l.name}.{f.name}: bit shift"⟩] ++
    entryDefines name l f

def groupsOf (lead : String) (l : Layout) : List (List Define) :=
  let name := lead ++ "_" ++ macroName l.name
  resetDefines name l :: alwaysWriteDefines name l :: l.fieldsByPosition.map (fieldDefinesOf name l)

def rowsOf (lead : String) (l : Layout) : List (Option Define) :=
  (addressDefines lead l).map some ++ groupRows (groupsOf lead l)

def itemsOf (lead : String) (l : Layout) : Header :=
  [.blank, .banner s!"{l.name} Register"] ++ (layoutComment l).map .comment ++
    if (rowsOf lead l).isEmpty then [] else [.blank, .defines (rowsOf lead l)]

def headerOf (m : RegisterMap) (s : Setting) (generator : String) : Header :=
  let lead := s.config.macroLead m
  opening m s generator ++ m.blocks.values.flatMap (blockItems lead) ++
    m.layouts.flatMap (itemsOf lead) ++ closing m s

theorem fieldDefines_eq (name : String) (hl : FuncPack.Sound l) (hf : f ∈ l.fieldsByPosition) :
    fieldDefines name l f = .ok (fieldDefinesOf name l f) := by
  rw [fieldDefines, hl.lsb_eq hf]
  rfl

theorem layoutItems_eq (lead : String) (hl : FuncPack.Sound l) :
    layoutItems lead l = .ok (itemsOf lead l) := by
  rw [layoutItems, layoutDefines, Success.mapM_eq_map fun f hf => fieldDefines_eq _ hl hf]
  rfl

theorem header_eq (h : listing.build.result = .ok m) (s : Setting) (generator : String) :
    header m s generator = .ok (headerOf m s generator) := by
  rw [header, Success.mapM_eq_map fun l hl => layoutItems_eq _ (FuncPack.Sound.of_build h hl)]
  rfl

end MacroMap

namespace FuncPack

variable {n : Naming} {bitFields : Bool}

def structItemsOf (n : Naming) (bitFields : Bool) (l : Layout) : Header :=
  let c := codec n bitFields l
  let overwrite := n.function l "overwrite"
  let unpackInto := n.function l "unpack_into"
  [.blank, .struct ⟨c.tag, l.docs, c.members⟩, .blank, .rule s!"{l.name} pack/unpack", .blank,
    .brief "Write all fields of @p r into @p val, leaving other bits unchanged.",
    .function (.overwrite overwrite c.tag c.packed c.fixed c.packSteps), .blank,
    .brief "Convert @p r into a register value. Unused bits are zero.",
    .function (.pack (n.function l "pack") c.tag c.packed overwrite), .blank,
    .brief "Decode register value @p val into @p r.",
    .function (.unpackInto unpackInto c.tag c.packed c.unpackSteps), .blank,
    .brief "Decode register value @p val.",
    .function (.unpack (n.function l "unpack") c.tag c.packed unpackInto)]

def itemsOf (n : Naming) (bitFields : Bool) (l : Layout) : Header :=
  [.blank, .banner s!"{l.name} Register"] ++
    (if (layoutDefines n l).isEmpty then []
      else [.blank, .defines ((layoutDefines n l).map some)]) ++
    localEnumItems n l ++ if l.fields.isEmpty then [] else structItemsOf n bitFields l

def operations : List String := ["overwrite", "pack", "unpack_into", "unpack"]

def packedLayouts (m : RegisterMap) : List Layout := m.layouts.filter (!·.fields.isEmpty)

def headerOf (m : RegisterMap) (s : Setting) (generator : String) : Header :=
  let n := Naming.of m s.config
  opening m s generator ++ sharedEnumItems n m ++
    m.layouts.flatMap (itemsOf n s.config.bitFields) ++
    (if s.config.dispatchMacros then dispatchItems n (packedLayouts m) else []) ++ closing m s

theorem member_eq (hl : Sound l) (hf : f ∈ l.fieldsByPosition) :
    member n bitFields l f = .ok (memberOf n bitFields l f) := by
  rw [member, hl.memberType_eq hf]
  rfl

theorem packStep_eq (hl : Sound l) (hf : f ∈ l.fieldsByPosition) :
    packStep f = .ok (packStepOf f) := by
  rw [packStep, hl.lsb_eq hf]
  rfl

theorem unpackStep_eq (hl : Sound l) (hf : f ∈ l.fieldsByPosition) :
    unpackStep n l f = .ok (unpackStepOf n l f) := by
  rw [unpackStep, hl.memberType_eq hf, hl.lsb_eq hf]
  rfl

theorem structItems_eq (hl : Sound l) :
    structItems n bitFields l = .ok (structItemsOf n bitFields l) := by
  have hword : wordFor l.width = .ok (codec n bitFields l).packed := hl.wordFor_eq
  rw [structItems, hword, Success.mapM_eq_map fun f hf => member_eq hl hf,
    Success.mapM_eq_map fun f hf => packStep_eq hl hf,
    Success.mapM_eq_map fun f hf => unpackStep_eq hl hf]
  rfl

theorem layoutItems_eq (hl : Sound l) :
    layoutItems n bitFields l = .ok (itemsOf n bitFields l) := by
  rw [layoutItems, structItems_eq hl, itemsOf]
  cases l.fields.isEmpty <;> rfl

theorem header_eq (h : listing.build.result = .ok m) (s : Setting) (generator : String) :
    header m s generator = .ok (headerOf m s generator) := by
  rw [header, Success.mapM_eq_map fun l hl => layoutItems_eq (Sound.of_build h hl)]
  rfl

theorem itemsOf_subset_headerOf (hl : l ∈ m.layouts) {s : Setting} {generator : String} :
    itemsOf (.of m s.config) s.config.bitFields l ⊆ headerOf m s generator := by
  intro item hitem
  have hflat := List.mem_flatMap.2 ⟨l, hl, hitem⟩
  simp only [headerOf, List.mem_append]
  exact .inl (.inl (.inr hflat))

theorem structItemsOf_subset_headerOf (hl : l ∈ m.layouts) (hfields : l.fields.isEmpty = false)
    {s : Setting} {generator : String} :
    structItemsOf (.of m s.config) s.config.bitFields l ⊆ headerOf m s generator := by
  refine List.Subset.trans ?_ (itemsOf_subset_headerOf hl)
  rw [itemsOf, hfields, if_neg Bool.false_ne_true]
  exact List.subset_append_right _ _

theorem enumDecl_mem_localEnumItems (hf : f ∈ l.fieldsByPosition) {e : Enumeration}
    (he : f.enumeration = some e) (hlocal : e.shared = false) :
    .enumeration (enumDecl n (n.enumBase l e) e) ∈ localEnumItems n l := by
  have hmem : (f, e) ∈ l.localEnums := by
    refine List.mem_filterMap.2 ⟨f, hf, ?_⟩
    simp [Field.localEnum, he, hlocal]
  exact List.mem_flatMap.2 ⟨(f, e), hmem, List.mem_cons_of_mem _ List.mem_cons_self⟩

theorem enumDecl_mem_sharedEnumItems {e : Enumeration} (he : e ∈ m.enums.values) :
    .enumeration (enumDecl n e.name e) ∈ sharedEnumItems n m := by
  have hne : m.enums.isEmpty = false := by
    rw [Table.isEmpty, List.isEmpty_eq_false_iff]
    rintro hnil
    rw [Table.values, hnil] at he
    cases he
  rw [sharedEnumItems, hne, if_neg Bool.false_ne_true]
  refine List.mem_append_right _ (List.mem_flatMap.2 ⟨e, he, ?_⟩)
  exact List.mem_cons_of_mem _ List.mem_cons_self

theorem enumBase_of_shared {e : Enumeration} (hshared : e.shared = true) :
    n.enumBase l e = e.name := by
  simp [Naming.enumBase, hshared]

theorem shared_mem_enums (hm : m.Coherent) (hl : l ∈ m.layouts) (hf : f ∈ l.fieldsByPosition)
    {e : Enumeration} (he : f.enumeration = some e) (hshared : e.shared = true) :
    e ∈ m.enums.values := by
  obtain ⟨k, hk⟩ := Table.mem_values_iff.1 (Layout.mem_fieldsByPosition_iff.1 hf)
  exact Table.mem_values_iff.2 ⟨_, ((hm.layout_form hl).fields k f hk).shared e he hshared⟩

theorem enumDecl_mem_headerOf (hm : m.Coherent) (hl : l ∈ m.layouts) (hf : f ∈ l.fieldsByPosition)
    {e : Enumeration} (he : f.enumeration = some e) {s : Setting} {generator : String} :
    .enumeration (enumDecl (.of m s.config) ((Naming.of m s.config).enumBase l e) e) ∈
      headerOf m s generator := by
  cases hshared : e.shared with
  | true =>
    have hmem := shared_mem_enums hm hl hf he hshared
    rw [enumBase_of_shared hshared]
    simp only [headerOf, List.mem_append]
    exact .inl (.inl (.inl (.inr (enumDecl_mem_sharedEnumItems hmem))))
  | false =>
    apply itemsOf_subset_headerOf hl
    rw [itemsOf, List.mem_append, List.mem_append]
    exact .inl (.inr (enumDecl_mem_localEnumItems hf he hshared))

theorem mem_enumerations_iff {h : Header} {d : EnumDecl} :
    d ∈ h.enumerations ↔ .enumeration d ∈ h := by
  rw [Header.enumerations, List.mem_flatMap]
  constructor
  · rintro ⟨item, hitem, hd⟩
    cases item with
    | enumeration decl => rwa [List.mem_singleton.1 hd]
    | _ => cases hd
  · exact fun hd => ⟨_, hd, List.mem_singleton.2 rfl⟩

theorem enumeration_of_mem_headerOf {s : Setting} {generator : String} {d : EnumDecl}
    (hd : .enumeration d ∈ headerOf m s generator) :
    ∃ base, ∃ e ∈ m.enumerations, d = enumDecl (.of m s.config) base e := by
  simp only [headerOf, List.mem_append] at hd
  rcases hd with (((hd | hd) | hd) | hd) | hd
  · simp [opening] at hd
  · rw [sharedEnumItems] at hd
    split at hd
    · cases hd
    · simp only [List.mem_append, List.mem_cons, reduceCtorEq, List.not_mem_nil, or_self,
        List.mem_flatMap, Item.enumeration.injEq, or_false, false_or] at hd
      obtain ⟨e, he, rfl⟩ := hd
      exact ⟨_, e, List.mem_append_left _ he, rfl⟩
  · obtain ⟨l, hl, hd⟩ := List.mem_flatMap.1 hd
    have hlocal : .enumeration d ∈ localEnumItems (.of m s.config) l := by
      simpa [itemsOf, structItemsOf] using hd
    obtain ⟨⟨f, e⟩, hfe, hd⟩ := List.mem_flatMap.1 hlocal
    simp only [List.mem_cons, reduceCtorEq, Item.enumeration.injEq, List.not_mem_nil, or_false,
      false_or] at hd
    obtain ⟨f', hf', hfe⟩ := List.mem_filterMap.1 hfe
    obtain ⟨e', he', hfe⟩ := Option.map_eq_some_iff.1 hfe
    cases hfe
    exact ⟨_, e,
      RegisterMap.mem_enumerations_of_layout hl hf' (Option.filter_eq_some_iff.1 he').1, hd⟩
  · split at hd
    · rw [dispatchItems] at hd
      split at hd
      · cases hd
      · simp [dispatch] at hd
    · cases hd
  · simp [closing] at hd

end FuncPack

end CHeader

end RegAtlas
