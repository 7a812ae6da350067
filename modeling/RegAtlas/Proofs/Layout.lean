import RegAtlas.Layout
import RegAtlas.Proofs.Build

namespace RegAtlas

variable {l : Listing} {m : RegisterMap} {layout : Layout} {f : Field}

def Layout.form (l : Layout) : RegisterForm := ⟨l.width, l.fields, l.resetValue, l.alwaysWrite⟩

theorem Layout.mem_fieldsByPosition_iff :
    f ∈ layout.fieldsByPosition ↔ f ∈ layout.fields.values := List.mem_mergeSort

theorem Layout.fieldsByPosition_pairwise (h : layout.form.WellFormed) :
    layout.fieldsByPosition.Pairwise fun a b => ∀ i ∈ a.bits, i ∉ b.bits := by
  refine ((List.mergeSort_perm _ _).pairwise_iff ?_).2 h.fields_pairwise
  exact fun hab i hb ha => hab i ha hb

namespace RegisterMap

theorem mem_layouts_iff : layout ∈ m.layouts ↔
    (∃ k r, m.registers.get? k = some r ∧ r.origin = none ∧ layout = .ofRegister r) ∨
    ∃ b block k t, m.blocks.get? b = some block ∧ block.registers.get? k = some t ∧
      layout = .ofTemplate block t := by
  simp only [layouts, registersByAddress, BlockTemplate.registersByOffset, List.mem_append,
    List.mem_map, List.mem_filter, List.mem_flatMap, List.mem_mergeSort, Table.mem_values_iff,
    Option.isNone_iff_eq_none]
  constructor
  · rintro (⟨r, ⟨⟨k, hk⟩, ho⟩, rfl⟩ | ⟨block, ⟨b, hb⟩, t, ⟨k, hk⟩, rfl⟩)
    · exact .inl ⟨k, r, hk, ho, rfl⟩
    · exact .inr ⟨b, block, k, t, hb, hk, rfl⟩
  · rintro (⟨k, r, hk, ho, rfl⟩ | ⟨b, block, k, t, hb, hk, rfl⟩)
    · exact .inl ⟨r, ⟨⟨k, hk⟩, ho⟩, rfl⟩
    · exact .inr ⟨block, ⟨b, hb⟩, t, ⟨k, hk⟩, rfl⟩

/-- Registers with ascending addresses are in order already. -/
theorem layouts_of_ascending (hblocks : m.blocks.values = [])
    (hascending : m.registers.values.Pairwise fun a b =>
      ∃ x y, a.address = some x ∧ b.address = some y ∧ x < y) :
    m.layouts = (m.registers.values.filter (·.origin.isNone)).map .ofRegister := by
  have hsorted : m.registersByAddress = m.registers.values := by
    refine List.mergeSort_of_pairwise (hascending.imp ?_)
    rintro a b ⟨x, y, ha, hb, hlt⟩
    simp [ha, hb, hlt]
  rw [layouts, hsorted, hblocks, List.flatMap_nil, List.append_nil]

theorem layout_wellFormed (h : l.build.result = .ok m) (hl : layout ∈ m.layouts) :
    layout.form.WellFormed := by
  have hm := RegisterMap.WellFormed.of_build h
  rcases mem_layouts_iff.1 hl with ⟨k, r, hk, -, rfl⟩ | ⟨b, block, k, t, hb, hk, rfl⟩
  · exact hm.registers k r hk
  · exact hm.templates b block k t hb hk

theorem layout_formed (h : l.build.result = .ok m) (hl : layout ∈ m.layouts) :
    Resolve.Formed ⟨l.defaultWidth, m.enums⟩ layout.form := by
  obtain ⟨blocks, parts, hm⟩ := l.resolved_of_resolve (Listing.build_ok_iff.1 h).1
  rcases mem_layouts_iff.1 hl with ⟨k, r, hk, -, rfl⟩ | ⟨b, block, k, t, hb, hk, rfl⟩
  · exact hm.formed hk
  · exact hm.template_formed hb hk

theorem layout_field_nonempty (h : l.build.result = .ok m) (hl : layout ∈ m.layouts)
    (hf : f ∈ layout.fields.values) : ∃ i, i ∈ f.bits := by
  obtain ⟨n, hn⟩ := Table.mem_values_iff.1 hf
  obtain ⟨access, place, spec, hspec⟩ := (layout_formed h hl).exists_field hn
  exact (Resolve.bits_ok hspec.bits).1

theorem exists_lsb_of_layout (h : l.build.result = .ok m) (hl : layout ∈ m.layouts)
    (hf : f ∈ layout.fields.values) : ∃ n < wordSize, f.bits.lsb = .ok n := by
  have hform := layout_wellFormed h hl
  obtain ⟨i, hi⟩ := layout_field_nonempty h hl hf
  obtain ⟨n, hn⟩ := BitSet.exists_lsb_ok hi
  have hmem : n ∈ f.bits := (BitSet.lsb_eq_ok_iff.1 hn).1
  exact ⟨n, (hform.bit_lt hf hmem).trans_le hform.width_le, hn⟩

end RegisterMap

end RegAtlas
