import RegAtlas.Proofs.Layout
import RegAtlas.Proofs.Resolve.Coherence
import RegAtlas.Proofs.Sorting

namespace RegAtlas

open Resolve (stamped)

structure RegisterMap.LaidOut (m : RegisterMap) : Prop where
  nodup : m.layouts.Nodup
  plain : ∀ k r, m.registers.get? k = some r → r.origin = none →
    ∃! layout, layout ∈ m.layouts ∧ layout.block = none ∧ layout.name = k
  template : ∀ b block k t, m.blocks.get? b = some block → block.registers.get? k = some t →
    ∃! layout, layout ∈ m.layouts ∧ layout.block = some b ∧ layout.name = b ++ k
  complete : ∀ layout ∈ m.layouts,
    (∃ r, m.registers.get? layout.name = some r ∧ r.origin = none ∧ layout.block = none) ∨
    ∃ b block k t, m.blocks.get? b = some block ∧ block.registers.get? k = some t ∧
      layout.block = some b ∧ layout.name = b ++ k
  instances : (m.layouts.flatMap (·.instances)).Perm
    (m.registers.values.filterMap fun r => r.address.map fun a => ⟨r.name, a⟩)
  no_overflow : ∀ b block i start k t, m.blocks.get? b = some block →
    block.instances.get? i = some start → block.registers.get? k = some t →
    start.toNat + t.offset.toNat < 2 ^ 64
  agrees : ∀ layout ∈ m.layouts, ∀ x ∈ layout.instances,
    ∃ r, m.registers.get? x.name = some r ∧ r.address = some x.address ∧
      r.width = layout.width ∧ r.fields = layout.fields ∧ r.resetValue = layout.resetValue ∧
      r.alwaysWrite = layout.alwaysWrite
  ascending : ∀ layout ∈ m.layouts,
    layout.instances.Pairwise fun x y => x.address.toNat < y.address.toNat

variable {l : Listing} {m : RegisterMap} {layout layout' : Layout} {x : LayoutInstance}
  {b i k : String} {block : BlockTemplate} {t : TemplateRegister} {start : Word} {r : Register}

theorem Layout.mem_templateInstances_iff : x ∈ Layout.templateInstances block t ↔
    ∃ i start, block.instances.get? i = some start ∧ x = ⟨i ++ t.name, start + t.offset⟩ := by
  simp only [templateInstances, List.mem_mergeSort, List.mem_map, Prod.exists,
    Table.mem_entries_iff, eq_comm (a := x)]

theorem Layout.mem_ofRegister_instances_iff :
    x ∈ (Layout.ofRegister r).instances ↔ r.address = some x.address ∧ x.name = r.name := by
  obtain ⟨name, address⟩ := x
  simp only [ofRegister, Option.mem_toList, Option.map_eq_some_iff, LayoutInstance.mk.injEq]
  constructor
  · rintro ⟨a, ha, rfl, rfl⟩
    exact ⟨ha, rfl⟩
  · rintro ⟨ha, rfl⟩
    exact ⟨address, ha, rfl, rfl⟩

/-- The layout that the register belongs to. -/
def RegisterMap.LayoutOf (m : RegisterMap) (r : Register) (layout : Layout) : Prop :=
  match r.origin with
  | none => layout = .ofRegister r
  | some o => ∃ block t, m.blocks.get? o.block = some block ∧
      block.registers.get? o.template = some t ∧ layout = .ofTemplate block t

theorem RegisterMap.LayoutOf.unique (h : m.LayoutOf r layout) (h' : m.LayoutOf r layout') :
    layout = layout' := by
  unfold LayoutOf at h h'
  split at h
  next ho =>
    simp only [ho] at h'
    rw [h, h']
  next o ho =>
    simp only [ho] at h'
    obtain ⟨block, t, hb, ht, rfl⟩ := h
    obtain ⟨block', t', hb', ht', rfl⟩ := h'
    cases hb.symm.trans hb'
    cases ht.symm.trans ht'
    rfl

namespace Listing.Resolved

variable {blocks : Named BlockTemplate} {parts : List (List Resolve.Addition)}

theorem fits (h : l.Resolved m blocks parts) (hb : m.blocks.get? b = some block)
    (hi : block.instances.get? i = some start) (ht : block.registers.get? k = some t) :
    start.toNat + t.offset.toNat < 2 ^ 64 := by
  obtain ⟨bare, hbare, hfit⟩ := h.made.known b i start
    (h.instanceOf_mem_iff.2 ((h.instance_iff hb).1 hi))
  cases (h.get?_block hb).symm.trans hbare
  exact hfit k t ht

theorem exists_register (h : l.Resolved m blocks parts) (hl : layout ∈ m.layouts)
    (hx : x ∈ layout.instances) : ∃ r, m.registers.get? x.name = some r ∧ r.name = x.name ∧
      r.address = some x.address ∧ r.form = layout.form ∧ m.LayoutOf r layout := by
  rcases RegisterMap.mem_layouts_iff.1 hl with ⟨k, r, hr, ho, rfl⟩ | ⟨b, block, k, t, hb, ht, rfl⟩
  · obtain ⟨haddress, hname⟩ := Layout.mem_ofRegister_instances_iff.1 hx
    have hk := (h.get?_register_iff.1 hr).1
    refine ⟨r, by rwa [hname, hk], hname.symm, haddress, rfl, ?_⟩
    simp only [RegisterMap.LayoutOf, ho]
  · obtain ⟨i, start, hi, rfl⟩ := Layout.mem_templateInstances_iff.1 hx
    refine ⟨stamped b i start t, h.get?_stamped hb hi ht, rfl, rfl, rfl, block, t, hb, ?_, rfl⟩
    dsimp only
    rwa [h.template_name hb ht]

theorem exists_layoutOf (h : l.Resolved m blocks parts) (hr : m.registers.get? k = some r) :
    ∃ layout ∈ m.layouts, m.LayoutOf r layout ∧ layout.form = r.form := by
  obtain ⟨-, hplain | ⟨b, i, start, bare, n, t, hi, hb, ht, rfl⟩⟩ := h.get?_register_iff.1 hr
  · obtain ⟨k', spec, -, hspec⟩ := h.register_mem_iff.1 hplain
    have ho : r.origin = none := (Resolve.register_ok hspec).origin
    refine ⟨_, RegisterMap.mem_layouts_iff.2 (.inl ⟨k, r, hr, ho, rfl⟩), ?_, rfl⟩
    simp only [RegisterMap.LayoutOf, ho]
  · obtain ⟨block, hblock, hregs⟩ := h.get?_blocks_iff.2 ⟨bare, hb, rfl⟩
    rw [← hregs] at ht
    refine ⟨_, RegisterMap.mem_layouts_iff.2 (.inr ⟨b, block, n, t, hblock, ht, rfl⟩), ?_, rfl⟩
    refine ⟨block, t, hblock, ?_, rfl⟩
    dsimp only
    rwa [h.template_name hblock ht]

theorem exists_layout (h : l.Resolved m blocks parts) (hr : m.registers.get? k = some r)
    {a : Word} (ha : r.address = some a) :
    ∃ layout ∈ m.layouts, ⟨r.name, a⟩ ∈ layout.instances := by
  obtain ⟨-, hplain | ⟨b, i, start, bare, n, t, hi, hb, ht, rfl⟩⟩ := h.get?_register_iff.1 hr
  · obtain ⟨k', spec, -, hspec⟩ := h.register_mem_iff.1 hplain
    exact ⟨_,
      RegisterMap.mem_layouts_iff.2 (.inl ⟨k, r, hr, (Resolve.register_ok hspec).origin, rfl⟩),
      Layout.mem_ofRegister_instances_iff.2 ⟨ha, rfl⟩⟩
  · obtain ⟨block, hblock, hregs⟩ := h.get?_blocks_iff.2 ⟨bare, hb, rfl⟩
    rw [← hregs] at ht
    cases ha
    exact ⟨_, RegisterMap.mem_layouts_iff.2 (.inr ⟨b, block, n, t, hblock, ht, rfl⟩),
      Layout.mem_templateInstances_iff.2 ⟨i, start, (h.instance_iff hblock).2 hi, rfl⟩⟩

theorem instances_ascending (h : l.Resolved m blocks parts) (hm : m.Coherent)
    (hb : m.blocks.get? b = some block) (ht : block.registers.get? k = some t) :
    (Layout.templateInstances block t).Pairwise fun x y => x.address.toNat < y.address.toNat := by
  have hsorted : (Layout.templateInstances block t).Pairwise fun x y =>
      x.address.toNat ≤ y.address.toNat :=
    pairwise_mergeSort_of_key (fun x : LayoutInstance => x.address.toNat)
      (fun _ _ => decide_eq_true_iff) _
  have hdistinct :
      (Layout.templateInstances block t).Pairwise fun x y => x.address ≠ y.address := by
    refine ((List.mergeSort_perm _ _).pairwise_iff fun hne => hne.symm).2 (List.pairwise_map.2 ?_)
    have : Std.Symm fun e e' : String × Word => e.2 + t.offset ≠ e'.2 + t.offset :=
      ⟨fun _ _ hne => hne.symm⟩
    refine Table.pairwise_entries_iff.2 fun i i' start start' hi hi' hne he => hne ?_
    have hkeys := hm.addresses_distinct _ _ _ _ _ (h.get?_stamped hb hi ht)
      (h.get?_stamped hb hi' ht) rfl (congrArg some he.symm)
    exact (String.append_left_inj _).1 hkeys
  refine (hsorted.and hdistinct).imp fun ⟨hle, hne⟩ => ?_
  exact lt_of_le_of_ne hle fun he => hne (BitVec.eq_of_toNat_eq he)

end Listing.Resolved

namespace RegisterMap.Coherent

theorem layoutKeys_nodup (hm : m.Coherent) :
    (m.layouts.map fun layout => (layout.block, layout.name)).Nodup := by
  simp only [layouts, List.map_append, List.map_map, List.map_flatMap]
  refine List.nodup_append.2 ⟨?_, List.nodup_flatMap.2 ⟨fun block hblock => ?_, ?_⟩, ?_⟩
  · have hperm : (m.registersByAddress.map Register.name).Perm
        (m.registers.values.map Register.name) := (List.mergeSort_perm _ _).map _
    have hnodup := hperm.nodup_iff.2 hm.registers_keyed.nodup
    have hsub := (List.filter_sublist (p := (·.origin.isNone))
      (l := m.registersByAddress)).map Register.name
    have hplain := (hnodup.sublist hsub).map (f := fun n => ((none : Option String), n))
      fun _ _ h => congrArg Prod.snd h
    rwa [List.map_map] at hplain
  · obtain ⟨b, hb⟩ := Table.mem_values_iff.1 hblock
    have hperm : (block.registersByOffset.map TemplateRegister.name).Perm
        (block.registers.values.map TemplateRegister.name) := (List.mergeSort_perm _ _).map _
    have hnodup := hperm.nodup_iff.2 (hm.templates_keyed b block hb).nodup
    have htemplates := hnodup.map (f := fun n => (some block.name, block.name ++ n))
      fun _ _ h => (String.append_right_inj _).1 (congrArg Prod.snd h)
    rwa [List.map_map] at htemplates
  · refine (List.pairwise_map.1 hm.blocks_keyed.nodup).imp fun {block block'} hne => ?_
    intro key hkey hkey'
    obtain ⟨t, -, rfl⟩ := List.mem_map.1 hkey
    obtain ⟨t', -, he⟩ := List.mem_map.1 hkey'
    exact hne (Option.some.inj (congrArg Prod.fst he)).symm
  · rintro key hkey key' hkey' rfl
    obtain ⟨r, -, rfl⟩ := List.mem_map.1 hkey
    obtain ⟨block, -, ht⟩ := List.mem_flatMap.1 hkey'
    obtain ⟨t, -, he⟩ := List.mem_map.1 ht
    cases congrArg Prod.fst he

theorem layout_eq (hm : m.Coherent) (hl : layout ∈ m.layouts) (hl' : layout' ∈ m.layouts)
    (hblock : layout.block = layout'.block) (hname : layout.name = layout'.name) :
    layout = layout' :=
  List.inj_on_of_nodup_map hm.layoutKeys_nodup hl hl' (Prod.ext hblock hname)

theorem layout_form (hm : m.Coherent) (hl : layout ∈ m.layouts) :
    layout.form.Coherent m.enums := by
  rcases RegisterMap.mem_layouts_iff.1 hl with ⟨k, r, hr, -, rfl⟩ | ⟨b, block, k, t, hb, ht, rfl⟩
  · exact hm.registers k r hr
  · exact hm.templates b block k t hb ht

theorem layout_field (hm : m.Coherent) (hl : layout ∈ m.layouts) {f : Field}
    (hf : f ∈ layout.fieldsByPosition) : Identifier f.name ∧ f.Coherent m.enums := by
  obtain ⟨k, hk⟩ := Table.mem_values_iff.1 (Layout.mem_fieldsByPosition_iff.1 hf)
  obtain ⟨rfl, hname⟩ := (hm.layout_form hl).fields_keyed k f hk
  exact ⟨hname, (hm.layout_form hl).fields _ f hk⟩

theorem exists_plainLayout (hm : m.Coherent) (hr : m.registers.get? k = some r)
    (ho : r.origin = none) :
    ∃! layout, layout ∈ m.layouts ∧ layout.block = none ∧ layout.name = k := by
  have hl : Layout.ofRegister r ∈ m.layouts :=
    RegisterMap.mem_layouts_iff.2 (.inl ⟨k, r, hr, ho, rfl⟩)
  refine ⟨_, ⟨hl, rfl, (hm.registers_keyed k r hr).1⟩, fun layout ⟨hl', hblock, hname⟩ => ?_⟩
  exact hm.layout_eq hl' hl hblock (hname.trans (hm.registers_keyed k r hr).1.symm)

theorem exists_templateLayout (hm : m.Coherent) (hb : m.blocks.get? b = some block)
    (ht : block.registers.get? k = some t) :
    ∃! layout, layout ∈ m.layouts ∧ layout.block = some b ∧ layout.name = b ++ k := by
  obtain ⟨rfl, -⟩ := hm.blocks_keyed b block hb
  obtain ⟨rfl, -⟩ := hm.templates_keyed _ block hb k t ht
  have hl : Layout.ofTemplate block t ∈ m.layouts :=
    RegisterMap.mem_layouts_iff.2 (.inr ⟨_, block, _, t, hb, ht, rfl⟩)
  exact ⟨_, ⟨hl, rfl, rfl⟩, fun layout ⟨hl', hblock, hname⟩ => hm.layout_eq hl' hl hblock hname⟩

end RegisterMap.Coherent

namespace Listing.Resolved

variable {blocks : Named BlockTemplate} {parts : List (List Resolve.Addition)}

/-- The instances of a layout lie at ascending addresses, those of different layouts are different,
and together they are the registers that have an address. -/
theorem instances_perm (h : l.Resolved m blocks parts) (hm : m.Coherent)
    (hascending : ∀ layout ∈ m.layouts,
      layout.instances.Pairwise fun x y => x.address.toNat < y.address.toNat) :
    (m.layouts.flatMap (·.instances)).Perm
      (m.registers.values.filterMap fun r => r.address.map fun a => ⟨r.name, a⟩) := by
  refine (List.perm_ext_iff_of_nodup (List.nodup_flatMap.2 ⟨fun layout hl => ?_, ?_⟩) ?_).2
    fun x => ?_
  · refine (hascending layout hl).imp fun {x y} hlt he => ?_
    rw [he] at hlt
    exact Nat.lt_irrefl _ hlt
  · refine (hm.layoutKeys_nodup.of_map _).imp_of_mem fun {layout layout'} hl hl' hne x hx hx' => ?_
    obtain ⟨r, hr, -, -, -, hof⟩ := h.exists_register hl hx
    obtain ⟨r', hr', -, -, -, hof'⟩ := h.exists_register hl' hx'
    cases hr.symm.trans hr'
    exact hne (hof.unique hof')
  · refine List.pairwise_filterMap.2 ((List.pairwise_map.1 hm.registers_keyed.nodup).imp ?_)
    rintro r r' hne x hx y hy rfl
    obtain ⟨a, -, rfl⟩ := Option.map_eq_some_iff.1 hx
    obtain ⟨a', -, he⟩ := Option.map_eq_some_iff.1 hy
    exact hne (congrArg LayoutInstance.name he).symm
  · rw [List.mem_flatMap, List.mem_filterMap]
    constructor
    · rintro ⟨layout, hl, hx⟩
      obtain ⟨r, hr, hname, haddress, -⟩ := h.exists_register hl hx
      refine ⟨r, Table.mem_values_iff.2 ⟨_, hr⟩, ?_⟩
      rw [haddress, hname]
      rfl
    · rintro ⟨r, hr, hx⟩
      obtain ⟨k, hk⟩ := Table.mem_values_iff.1 hr
      obtain ⟨a, ha, rfl⟩ := Option.map_eq_some_iff.1 hx
      exact h.exists_layout hk ha

end Listing.Resolved

theorem RegisterMap.Coherent.of_build (h : l.build.result = .ok m) : m.Coherent := by
  have hresolve := (Listing.build_ok_iff.1 h).1
  obtain ⟨blocks, parts, hm, hfree⟩ := l.run_of_resolve hresolve
  obtain ⟨hname, henums⟩ := l.enums_of_resolve hresolve
  exact hm.coherent hfree hname henums

/-- The layouts of a built map agree with its registers. -/
theorem Listing.laidOut_of_build (h : l.build.result = .ok m) : m.LaidOut := by
  have hm := RegisterMap.Coherent.of_build h
  obtain ⟨blocks, parts, hrun⟩ := l.resolved_of_resolve (Listing.build_ok_iff.1 h).1
  have hascending : ∀ layout ∈ m.layouts,
      layout.instances.Pairwise fun x y => x.address.toNat < y.address.toNat := by
    intro layout hl
    rcases RegisterMap.mem_layouts_iff.1 hl with ⟨k, r, -, -, rfl⟩ | ⟨b, block, k, t, hb, ht, rfl⟩
    · rw [Layout.ofRegister]
      cases r.address with
      | none => exact .nil
      | some a => exact List.pairwise_singleton _ _
    · exact hrun.instances_ascending hm hb ht
  refine ⟨hm.layoutKeys_nodup.of_map _, fun k r hr ho => hm.exists_plainLayout hr ho,
    fun b block k t hb ht => hm.exists_templateLayout hb ht, fun layout hl => ?_,
    hrun.instances_perm hm hascending, fun b block i start k t hb hi ht => hrun.fits hb hi ht,
    fun layout hl x hx => ?_, hascending⟩
  · rcases RegisterMap.mem_layouts_iff.1 hl with ⟨k, r, hr, ho, rfl⟩ | ⟨b, block, k, t, hb, ht, rfl⟩
    · obtain ⟨rfl, -⟩ := hm.registers_keyed k r hr
      exact .inl ⟨r, hr, ho, rfl⟩
    · obtain ⟨rfl, -⟩ := hm.blocks_keyed b block hb
      obtain ⟨rfl, -⟩ := hm.templates_keyed _ block hb k t ht
      exact .inr ⟨_, block, _, t, hb, ht, rfl, rfl⟩
  · obtain ⟨r, hr, -, haddress, hform, -⟩ := hrun.exists_register hl hx
    exact ⟨r, hr, haddress, congrArg RegisterForm.width hform, congrArg RegisterForm.fields hform,
      congrArg RegisterForm.resetValue hform, congrArg RegisterForm.alwaysWrite hform⟩

theorem Listing.chip_laidOut : ∃ m, Listing.chip.build.result = .ok m ∧
    m.registers.keys = ["CH0_CONTROL", "CH1_CONTROL", "STATUS"] ∧ m.LaidOut := by
  have hkeys : Listing.chip.build.result.toOption.map (·.registers.keys) =
      some ["CH0_CONTROL", "CH1_CONTROL", "STATUS"] := by decide +kernel
  obtain ⟨m, hm, hkeys⟩ := Success.exists_ok hkeys
  exact ⟨m, hm, hkeys, Listing.laidOut_of_build hm⟩

end RegAtlas
