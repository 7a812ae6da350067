import RegAtlas.Proofs.CHeader.MacroMap
import RegAtlas.Proofs.CHeader.Members

namespace RegAtlas

variable {m : RegisterMap} {l : Layout} {f : Field} {e : Enumeration}

namespace RegisterMap

theorem hasForm_of_mem_layouts (hl : l ∈ m.layouts) : m.HasForm l.form := by
  rcases mem_layouts_iff.1 hl with ⟨k, r, hr, -, rfl⟩ | ⟨b, block, k, t, hb, ht, rfl⟩
  · exact .register hr
  · exact .template hb ht

theorem hasField_of_mem_layouts (hl : l ∈ m.layouts) (hf : f ∈ l.fieldsByPosition) :
    m.HasField f := by
  obtain ⟨n, hn⟩ := Table.mem_values_iff.1 (Layout.mem_fieldsByPosition_iff.1 hf)
  exact ⟨l.form, n, hasForm_of_mem_layouts hl, hn⟩

end RegisterMap

/-- Widths that the values of the enumeration fit are those from the smallest one on. -/
structure Enumeration.WidthExact (e : Enumeration) : Prop where
  fits_iff : ∀ w, e.Fits w ↔ e.minWidth ≤ w
  lt_iff : ∀ w, e.Fits w ↔ ∀ k entry, e.entries.get? k = some entry → entry.value.toNat < 2 ^ w

namespace CHeader.FuncPack

variable {n : Naming} {bitFields : Bool}

/-- The member for a field has its width if it is a bit-field. The values of an enumeration fit
it. -/
structure MemberFits (bitFields : Bool) (f : Field) (x : Member) : Prop where
  name : x.name = codeName f.name
  width : x.width = if bitFields then some f.bits.spanWidth else none
  fits : ∀ e w, f.enumeration = some e → x.width = some w → e.Fits w

/-- The enumerations of the map fit its fields, and the members for these in each header. -/
structure EnumsFit (m : RegisterMap) : Prop where
  fields : ∀ f e, m.HasField f → f.enumeration = some e → e.minWidth ≤ f.bits.spanWidth
  members : ∀ (s : Setting) (generator : String), ∃ header,
    FuncPack.header m s generator = .ok header ∧
      List.Forall₂ (fun l d => List.Forall₂ (MemberFits s.config.bitFields)
        l.fieldsByPosition d.members) (packedLayouts m) header.structs

theorem memberFits (hfit : ∀ e, f.enumeration = some e → e.Fits f.bits.spanWidth) :
    MemberFits bitFields f (memberOf n bitFields l f) where
  name := rfl
  width := rfl
  fits e w he hw := by
    have hwidth : (if bitFields then some f.bits.spanWidth else none) = some w := hw
    split at hwidth
    · cases hwidth
      exact hfit e he
    · cases hwidth

theorem EnumsFit.of_build {listing : Listing} (h : listing.build.result = .ok m) : EnumsFit m where
  fields f e hf he := Enumeration.fits_iff_minWidth_le.1
    (hf.fits_spanWidth (.of_build h) (.of_build h) he)
  members s generator := by
    refine ⟨_, header_eq h s generator, ?_⟩
    rw [headerOf_structs, List.forall₂_map_right_iff, List.forall₂_same]
    intro l hl
    rw [structOf, List.forall₂_map_right_iff, List.forall₂_same]
    intro f hf
    have hfield : m.HasField f := RegisterMap.hasField_of_mem_layouts (List.mem_of_mem_filter hl) hf
    exact memberFits fun e he => hfield.fits_spanWidth (.of_build h) (.of_build h) he

/-- The width of an enumeration is exact, and no field that it is for is narrower, nor any bit-field
member for one. -/
theorem enumWidths_exact : (∀ e : Enumeration, e.WidthExact) ∧
    ∀ (listing : Listing) (m : RegisterMap), listing.build.result = .ok m → EnumsFit m :=
  ⟨fun _ => ⟨fun _ => Enumeration.fits_iff_minWidth_le, fun _ => Enumeration.fits_iff⟩,
    fun _ _ h => .of_build h⟩

theorem pump_enumWidths : ∃ m f e header, Listing.pump.build.result = .ok m ∧
    FuncPack.header m (.ofConfig { Config.standard with bitFields := true }) "c.funcpack" =
      .ok header ∧
    m.HasField f ∧ f.enumeration = some e ∧ e.minWidth = 4 ∧ e.Fits 4 ∧ ¬e.Fits 3 ∧
    f.bits.spanWidth = 4 ∧ e.minWidth ≤ f.bits.spanWidth ∧
    List.Forall₂ (fun l d => List.Forall₂ (MemberFits true) l.fieldsByPosition d.members)
      (packedLayouts m) header.structs := by
  have hparts : Listing.pump.build.result.toOption.map (fun m =>
      (m.registers.get? "STATUS").bind fun r => (r.fields.get? "SPEED").bind fun f =>
        f.enumeration.map fun e => (e.minWidth, f.bits.spanWidth)) = some (some (4, 4)) := by
    decide +kernel
  obtain ⟨m, hm, hparts⟩ := Success.exists_ok hparts
  simp only [Option.bind_eq_some_iff, Option.map_eq_some_iff, Prod.mk.injEq] at hparts
  obtain ⟨r, hr, f, hf, e, he, hmin, hspan⟩ := hparts
  have hfield : m.HasField f := ⟨r.form, "SPEED", .register hr, hf⟩
  obtain ⟨hexact, hall⟩ := enumWidths_exact
  obtain ⟨hfields, hmembers⟩ := hall _ m hm
  obtain ⟨header, hheader, hfits⟩ := hmembers
    (.ofConfig { Config.standard with bitFields := true }) "c.funcpack"
  refine ⟨m, f, e, header, hm, hheader, hfield, he, hmin, ?_, ?_, hspan, hfields f e hfield he,
    hfits⟩
  · exact ((hexact e).fits_iff 4).2 hmin.le
  · rw [(hexact e).fits_iff, hmin]
    decide

end CHeader.FuncPack

end RegAtlas
