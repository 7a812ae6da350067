import RegAtlas.CHeader.MacroMap
import RegAtlas.Proofs.Enumeration
import RegAtlas.Proofs.LayoutInstances

namespace RegAtlas

namespace CHeader

variable {l : Layout} {f : Field} {d : Define} {h : Header}

/-- The macro is in one of the groups of macros. -/
def Header.Defines (h : Header) (d : Define) : Prop := ∃ rows, .defines rows ∈ h ∧ some d ∈ rows

theorem Header.Defines.mono {h' : Header} (hd : h.Defines d) (hsub : h ⊆ h') : h'.Defines d :=
  hd.imp fun _ hrows => ⟨hsub hrows.1, hrows.2⟩

namespace MacroMap

variable {layoutMacro : String}

/-- The macros for the mask and the shift of a field, and that these numbers take its value out of
that of a register. -/
structure TakesOut (h : Header) (lead : String) (l : Layout) (f : Field) (mask shift : Literal) :
    Prop where
  mask_defined : h.Defines
    ⟨lead ++ "_" ++ macroName l.name ++ "_" ++ macroName f.name ++ "__MASK", mask,
      s!"{l.name}.{f.name}: bit mask (shifted)"⟩
  shift_defined : h.Defines
    ⟨lead ++ "_" ++ macroName l.name ++ "_" ++ macroName f.name ++ "__SHIFT", shift,
      s!"{l.name}.{f.name}: bit shift"⟩
  shift_lt : shift.value < wordSize
  taken : ∀ v : Word, ∃ x, f.extract v = .ok x ∧ (v.toNat &&& mask.value) >>> shift.value = x.toNat

theorem fieldDefines_ok {n : Nat} (hn : f.bits.lsb = .ok n) :
    ∃ ds, fieldDefines layoutMacro l f = .ok ds ∧
      ⟨layoutMacro ++ "_" ++ macroName f.name ++ "__MASK", .plain f.mask,
        s!"{l.name}.{f.name}: bit mask (shifted)"⟩ ∈ ds ∧
      ⟨layoutMacro ++ "_" ++ macroName f.name ++ "__SHIFT", .decimal n,
        s!"{l.name}.{f.name}: bit shift"⟩ ∈ ds := by
  refine ⟨_, by rw [fieldDefines, hn]; rfl, ?_, ?_⟩
  · exact List.mem_cons_self
  · exact List.mem_cons_of_mem _ List.mem_cons_self

theorem taken_eq {n : Nat} (hn : f.bits.lsb = .ok n) (v : Word) : ∃ x, f.extract v = .ok x ∧
    (v.toNat &&& (Literal.plain f.mask).value) >>> (Literal.decimal n).value = x.toNat := by
  refine ⟨_, BitSet.extract_eq hn v, ?_⟩
  rw [BitVec.toNat_ushiftRight, BitVec.toNat_and]
  rfl

theorem mem_groupRows {ds : List Define} {groups : List (List Define)} (hds : ds ∈ groups)
    (hd : d ∈ ds) : some d ∈ groupRows groups := by
  refine List.mem_flatMap.2 ⟨ds, hds, ?_⟩
  cases ds with
  | nil => cases hd
  | cons d' ds => exact List.mem_cons_of_mem _ (List.mem_map_of_mem hd)

theorem layoutItems_ok (lead : String) (hl : ∀ f ∈ l.fieldsByPosition,
      ∃ ds, fieldDefines (lead ++ "_" ++ macroName l.name) l f = .ok ds) :
    ∃ h, layoutItems lead l = .ok h ∧ ∀ f ∈ l.fieldsByPosition,
      ∃ ds, fieldDefines (lead ++ "_" ++ macroName l.name) l f = .ok ds ∧
        ∀ d ∈ ds, h.Defines d := by
  obtain ⟨groups, hgroups, hmade⟩ := Success.exists_mapM_eq_ok hl
  refine ⟨_, by rw [layoutItems, layoutDefines, hgroups]; rfl, fun f hf => ?_⟩
  obtain ⟨ds, hds, hf⟩ := hmade f hf
  refine ⟨ds, hf, fun d hd => ?_⟩
  have hrow : some d ∈ groupRows (resetDefines (lead ++ "_" ++ macroName l.name) l ::
      alwaysWriteDefines (lead ++ "_" ++ macroName l.name) l :: groups) :=
    mem_groupRows (List.mem_cons_of_mem _ (List.mem_cons_of_mem _ hds)) hd
  have hrows := List.mem_append_right ((addressDefines lead l).map some) hrow
  refine ⟨_, List.mem_append_right _ ?_, hrows⟩
  rw [List.isEmpty_eq_false_iff.2 (List.ne_nil_of_mem hrows)]
  exact List.mem_cons_of_mem _ List.mem_cons_self

theorem header_ok {m : RegisterMap} (s : Setting) (generator : String)
    (hm : ∀ l ∈ m.layouts, ∃ h, layoutItems (s.config.macroLead m) l = .ok h) :
    ∃ h, header m s generator = .ok h ∧ ∀ l ∈ m.layouts,
      ∃ items, layoutItems (s.config.macroLead m) l = .ok items ∧ items ⊆ h := by
  obtain ⟨all, hall, hmade⟩ := Success.exists_mapM_eq_ok hm
  refine ⟨_, by rw [header, hall]; rfl, fun l hl => ?_⟩
  obtain ⟨items, hmem, hitems⟩ := hmade l hl
  refine ⟨items, hitems, fun item hitem => ?_⟩
  have hflat : item ∈ all.flatten := List.mem_flatten.2 ⟨items, hmem, hitem⟩
  exact List.mem_append_left _ (List.mem_append_right _ hflat)

theorem header_takesOut {listing : Listing} {m : RegisterMap} (hm : listing.build.result = .ok m)
    (s : Setting) (generator : String) : ∃ h, header m s generator = .ok h ∧
      ∀ l ∈ m.layouts, ∀ f ∈ l.fields.values,
        ∃ mask shift, TakesOut h (s.config.macroLead m) l f mask shift := by
  have hlsb (l) (hl : l ∈ m.layouts) (f) (hf : f ∈ l.fieldsByPosition) :
      ∃ n < wordSize, f.bits.lsb = .ok n :=
    RegisterMap.exists_lsb_of_layout hm hl (Layout.mem_fieldsByPosition_iff.1 hf)
  have hitems (l) (hl : l ∈ m.layouts) := layoutItems_ok (s.config.macroLead m) fun f hf =>
    (hlsb l hl f hf).elim fun n hn => (fieldDefines_ok hn.2).imp fun _ hds => hds.1
  obtain ⟨h, hh, hsub⟩ := header_ok s generator fun l hl => (hitems l hl).imp fun _ hl => hl.1
  refine ⟨h, hh, fun l hl f hf => ?_⟩
  have hf := Layout.mem_fieldsByPosition_iff.2 hf
  obtain ⟨items, hmade, hdefined⟩ := hitems l hl
  obtain ⟨items', hmade', hsub⟩ := hsub l hl
  cases hmade.symm.trans hmade'
  obtain ⟨n, hlt, hn⟩ := hlsb l hl f hf
  obtain ⟨ds, hds, hdefined⟩ := hdefined f hf
  obtain ⟨ds', hds', hmask, hshift⟩ := fieldDefines_ok hn
  cases hds.symm.trans hds'
  exact ⟨.plain f.mask, .decimal n, (hdefined _ hmask).mono hsub, (hdefined _ hshift).mono hsub,
    hlt, taken_eq hn⟩

end MacroMap

end CHeader

open CHeader (MacroMap.TakesOut)

/-- The values of enumerations survive in all fields that use them, and the macros of fields read
the same values. -/
structure RegisterMap.EnumsSurvive (m : RegisterMap) : Prop where
  registers : ∀ k r n f, m.registers.get? k = some r → r.fields.get? n = some f → ∃ l, f.Recovers l
  templates : ∀ b block k t n f, m.blocks.get? b = some block → block.registers.get? k = some t →
    t.fields.get? n = some f → ∃ l, f.Recovers l
  macros : ∀ s generator, ∃ h, CHeader.MacroMap.header m s generator = .ok h ∧
    (∀ k r n f, m.registers.get? k = some r → r.fields.get? n = some f →
      ∃ layout, m.LayoutOf r layout ∧
        ∃ mask shift, MacroMap.TakesOut h (s.config.macroLead m) layout f mask shift) ∧
    ∀ b block k t n f, m.blocks.get? b = some block → block.registers.get? k = some t →
      t.fields.get? n = some f →
        ∃ mask shift, MacroMap.TakesOut h (s.config.macroLead m) (.ofTemplate block t) f mask shift

/-- A listing in which a split field and a field of a template register share an enumeration, and
another field has one of its own. -/
def Listing.pump : Listing :=
  let entry (v : Word) : Listing.EntrySpec := ⟨v, none, none⟩
  let speed : Listing.SharedEnumSpec :=
    ⟨.ofList [("FAST", entry 13#64), ("OFF", entry 0#64), ("SLOW", entry 1#64)], none, none⟩
  let status : Listing.RegisterSpec :=
    { fields := .ofList
        [("SPEED", ⟨.list [.bit 2, .range "5-4"], none, none, none, some (.shared "Speed")⟩),
          ("VALVE", ⟨.bit 7, none, none, none, some (.own (.ofList [("OPEN", entry 1#64)]))⟩)]
      address := some 0x10#64
      width := none
      access := none
      resetValue := none
      alwaysWrite := none
      brief := none
      doc := none }
  let control : Listing.TemplateSpec :=
    { offset := 4#64
      fields := .ofList [("SPEED", ⟨.span 0 4, none, none, none, some (.shared "Speed")⟩)]
      width := none
      access := none
      resetValue := none
      alwaysWrite := none
      brief := none
      doc := none }
  { name := "pump"
    defaultWidth := some 8
    brief := none
    doc := none
    author := none
    note := none
    registers := .ofList [("STATUS", .register status),
      ("CH#_", .block ⟨"Channel", .byId (.ofList [("0", 0x100#64), ("1", 0x200#64)]), some "#"⟩)]
    enums := .ofList [("Speed", speed)]
    blocks := .ofList [("Channel", ⟨.ofList [("CONTROL", control)], none, none⟩)] }

end RegAtlas
