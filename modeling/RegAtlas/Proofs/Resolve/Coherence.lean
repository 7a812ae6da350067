import RegAtlas.Check
import RegAtlas.Proofs.Resolve.Expansion

namespace RegAtlas

/-- Every value is stored under its name, which is an identifier. -/
def Table.Keyed {α : Type} (t : Named α) (name : α → String) : Prop :=
  ∀ k v, t.get? k = some v → name v = k ∧ Identifier k

theorem Table.Keyed.nodup {α : Type} {name : α → String} {t : Named α} (h : t.Keyed name) :
    (t.values.map name).Nodup := by
  rw [Table.values, List.map_map, List.Nodup, List.pairwise_map]
  refine t.ascending.imp_of_mem fun {a b} ha hb hlt => ?_
  rw [Function.comp_apply, Function.comp_apply, (h a.1 a.2 (Table.mem_entries_iff.1 ha)).1,
    (h b.1 b.2 (Table.mem_entries_iff.1 hb)).1]
  exact Table.ne_of_compare_lt hlt

structure Enumeration.Coherent (e : Enumeration) : Prop where
  entries_keyed : e.entries.Keyed EnumEntry.name
  nonempty : ∃ k entry, e.entries.get? k = some entry
  values_distinct : ∀ k k' entry entry', e.entries.get? k = some entry →
    e.entries.get? k' = some entry' → entry.value = entry'.value → k = k'

structure Field.Coherent (enums : Named Enumeration) (f : Field) : Prop where
  bits_nonempty : ∃ i, i ∈ f.bits
  bits_lt : ∀ i ∈ f.bits, i < 64
  access_nodup : f.access.Nodup
  enumeration : ∀ e, f.enumeration = some e → e.Coherent
  shared : ∀ e, f.enumeration = some e → e.shared = true → enums.get? e.name = some e
  own : ∀ e, f.enumeration = some e → e.shared = false → e.name = f.name

structure RegisterForm.Coherent (enums : Named Enumeration) (f : RegisterForm) : Prop where
  width_pos : 1 ≤ f.width
  width_le : f.width ≤ 64
  fields_keyed : f.fields.Keyed Field.name
  fields : ∀ k a, f.fields.get? k = some a → a.Coherent enums
  alwaysWrite_nonempty : ∀ aw, f.alwaysWrite = some aw → ∃ i, i ∈ aw.bits
  alwaysWrite_lt : ∀ aw, f.alwaysWrite = some aw → ∀ i ∈ aw.bits, i < 64

structure RegisterMap.Coherent (m : RegisterMap) : Prop where
  name : Identifier m.name
  registers_keyed : m.registers.Keyed Register.name
  enums_keyed : m.enums.Keyed Enumeration.name
  blocks_keyed : m.blocks.Keyed BlockTemplate.name
  templates_keyed : ∀ b block, m.blocks.get? b = some block →
    block.registers.Keyed TemplateRegister.name
  registers : ∀ k r, m.registers.get? k = some r → r.form.Coherent m.enums
  templates : ∀ b block k t, m.blocks.get? b = some block → block.registers.get? k = some t →
    t.form.Coherent m.enums
  enums : ∀ k e, m.enums.get? k = some e → e.shared = true ∧ e.Coherent
  offsets_distinct : ∀ b block, m.blocks.get? b = some block → ∀ k k' t t',
    block.registers.get? k = some t → block.registers.get? k' = some t' →
    t.offset = t'.offset → k = k'
  addresses_distinct : ∀ k k' r r' a, m.registers.get? k = some r → m.registers.get? k' = some r' →
    r.address = some a → r'.address = some a → k = k'

namespace Resolve

open Listing (AccessSpec AlwaysWriteSpec BlockSpec EntrySpec EnumSpec FieldSpec RegisterSpec
  SharedEnumSpec TemplateSpec)

variable {place : Breadcrumb} {name : String} {context : Context}

theorem accessMode?_nodup {mode : String} {more : List Access} (h : accessMode? mode = some more) :
    more.Nodup := by
  unfold accessMode? at h
  split at h <;> cases h <;> decide

theorem addAccesses_nodup {modes : List String} {found access : List Access}
    (hfound : found.Nodup) (h : addAccesses place modes found = .ok access) : access.Nodup := by
  induction modes generalizing found with
  | nil =>
    cases h
    exact hfound
  | cons mode modes ih =>
    unfold addAccesses at h
    split at h
    next more hmore =>
      refine ih (hfound.append ((accessMode?_nodup hmore).filter _) fun a ha hmem => ?_) h
      have hnew := (List.mem_filter.1 hmem).2
      simp [ha] at hnew
    next => cases h

theorem access_nodup {spec : Option AccessSpec} {a : List Access} (h : access spec place = .ok a) :
    a.Nodup := by
  unfold access at h
  split at h
  next =>
    cases h
    exact List.nodup_nil
  next => exact addAccesses_nodup List.nodup_nil h

theorem enumeration_coherent {specs : Named EntrySpec} {e : Enumeration}
    (h : entries specs place = .ok e.entries) : e.Coherent := by
  obtain ⟨hpoint, hnodup, hspecs⟩ := enumEntries_ok h
  constructor
  · intro k entry hk
    obtain ⟨spec, -, hentry⟩ := hpoint.exists_left hk
    exact ⟨hentry.name, hentry.identifier⟩
  · obtain ⟨e, he⟩ := List.exists_mem_of_ne_nil specs.entries hspecs
    obtain ⟨entry, hentry, -⟩ := hpoint.exists_right (Table.mem_entries_iff.1 he)
    exact ⟨e.1, entry, hentry⟩
  · intro k k' entry entry' hk hk' hvalue
    obtain ⟨spec, hspec, hentry⟩ := hpoint.exists_left hk
    obtain ⟨spec', hspec', hentry'⟩ := hpoint.exists_left hk'
    exact Table.eq_of_nodup_map hnodup hspec hspec'
      (hentry.value.symm.trans (hvalue.trans hentry'.value))

structure SharedEnums (enums : Named Enumeration) : Prop where
  keyed : enums.Keyed Enumeration.name
  coherent : ∀ k e, enums.get? k = some e → e.shared = true ∧ e.Coherent

theorem SharedEnums.of_table {specs : Named SharedEnumSpec} {enums : Named Enumeration}
    (h : (table (fun name spec => liftM (sharedEnum place name spec)) specs).result = .ok enums) :
    SharedEnums enums := by
  have hok {k : String} {e : Enumeration} (hk : enums.get? k = some e) :
      ∃ spec, SharedEnumOf place k spec e := by
    obtain ⟨spec, -, he⟩ := (table_ok h).exists_left hk
    exact ⟨spec, sharedEnum_ok he⟩
  constructor
  · intro k e hk
    obtain ⟨spec, he⟩ := hok hk
    exact ⟨he.name, he.identifier⟩
  · intro k e hk
    obtain ⟨spec, he⟩ := hok hk
    exact ⟨he.shared, enumeration_coherent he.entries⟩

theorem FieldEnumOf.coherent {enums : Named Enumeration} (henums : SharedEnums enums) {docs : Docs}
    {spec : Option EnumSpec} {e : Enumeration}
    (h : FieldEnumOf enums name docs place spec (some e)) :
    e.Coherent ∧ (e.shared = true → enums.get? e.name = some e) ∧
      (e.shared = false → e.name = name) := by
  cases h with
  | @shared n _ he =>
    obtain ⟨hname, -⟩ := henums.keyed n e he
    obtain ⟨hshared, hcoherent⟩ := henums.coherent n e he
    refine ⟨hcoherent, fun _ => hname ▸ he, fun hown => ?_⟩
    rw [hshared] at hown
    cases hown
  | own hes => exact ⟨enumeration_coherent hes, nofun, fun _ => rfl⟩

theorem alwaysWrite_ok {spec : Option AlwaysWriteSpec} {aw : AlwaysWrite}
    (h : (alwaysWrite spec place).result = .ok (some aw)) :
    (∃ i, i ∈ aw.bits) ∧ ∀ i ∈ aw.bits, i < wordSize := by
  cases spec with
  | none => cases h
  | some spec =>
    obtain ⟨s, hs, v, -, haw⟩ := alwaysWrite_some_ok_iff.1 h
    cases haw
    exact bits_ok hs

theorem FieldOf.coherent {enums : Named Enumeration} (henums : SharedEnums enums)
    {inherited : List Access} (hinherited : inherited.Nodup) {spec : FieldSpec} {f : Field}
    (h : FieldOf enums inherited place name spec f) : f.Coherent enums := by
  obtain ⟨hnonempty, hlt⟩ := bits_ok h.bits
  have henum (e) (he : f.enumeration = some e) := (he ▸ h.enumeration).coherent henums
  refine ⟨hnonempty, hlt, ?_, fun e he => (henum e he).1, fun e he => (henum e he).2.1,
    fun e he => h.name ▸ (henum e he).2.2⟩
  obtain ⟨own, hown, haccess⟩ := h.access
  rw [haccess]
  split
  · exact hinherited
  · exact access_nodup hown

theorem Formed.coherent (henums : SharedEnums context.enums) {f : RegisterForm}
    (h : Formed context f) : f.Coherent context.enums := by
  obtain ⟨place, accessSpec, given, specs, awSpec, h⟩ := h
  obtain ⟨hpos, hle⟩ := width_ok h.width
  obtain ⟨access, haccess, hfields⟩ := h.fields
  refine ⟨hpos, hle, fun k a hk => ?_, fun k a hk => ?_, ?_, ?_⟩
  · obtain ⟨spec, -, ha⟩ := hfields.exists_left hk
    exact ⟨ha.name, ha.identifier⟩
  · obtain ⟨spec, -, ha⟩ := hfields.exists_left hk
    exact ha.coherent henums (access_nodup haccess)
  · intro aw haw
    exact (alwaysWrite_ok (haw ▸ h.alwaysWrite)).1
  · intro aw haw
    exact (alwaysWrite_ok (haw ▸ h.alwaysWrite)).2

theorem BlockOf.offsets_distinct {spec : BlockSpec} {b : BlockTemplate}
    (h : BlockOf context place name spec b) {k k' : String} {t t' : TemplateRegister}
    (hk : b.registers.get? k = some t) (hk' : b.registers.get? k' = some t')
    (he : t.offset = t'.offset) : k = k' := by
  obtain ⟨tspec, htspec, -, ht⟩ := h.registers.exists_left hk
  obtain ⟨tspec', htspec', -, ht'⟩ := h.registers.exists_left hk'
  rw [ht.offset, ht'.offset] at he
  exact Table.eq_of_nodup_map h.offsets htspec htspec' he

end Resolve

open Resolve (Free SharedEnums)

theorem Listing.enums_pointwise {l : Listing} {m : RegisterMap} (h : l.resolve.result = .ok m) :
    Table.Pointwise (Resolve.SharedEnumOf [l.name, "enums"]) l.enums.entries m.enums.entries := by
  obtain ⟨blocks, h⟩ := Listing.resolve_ok_iff.1 h
  exact (Resolve.table_ok h.enums).imp fun _ _ he => ⟨he.1, Resolve.sharedEnum_ok he.2⟩

theorem Listing.enums_of_resolve {l : Listing} {m : RegisterMap} (h : l.resolve.result = .ok m) :
    Identifier m.name ∧ SharedEnums m.enums := by
  obtain ⟨blocks, h⟩ := Listing.resolve_ok_iff.1 h
  exact ⟨h.name ▸ Resolve.checkName_ok h.checked, .of_table h.enums⟩

namespace Listing.Resolved

variable {l : Listing} {m : RegisterMap} {blocks : Named BlockTemplate}
  {parts : List (List Resolve.Addition)}

theorem exists_blockSpec (h : l.Resolved m blocks parts) {b : String} {block : BlockTemplate}
    (hb : m.blocks.get? b = some block) : ∃ place spec, Resolve.BlockOf
      ⟨l.defaultWidth, m.enums⟩ place b spec { block with instances := .empty } := by
  obtain ⟨spec, -, hspec⟩ := h.templates.exists_left (h.get?_block hb)
  exact ⟨_, spec, Resolve.block_ok hspec⟩

theorem addresses_distinct (h : l.Resolved m blocks parts) (hfree : Free blocks parts.flatten)
    {k k' : String} {r r' : Register} {x : Word} (hr : m.registers.get? k = some r)
    (hr' : m.registers.get? k' = some r') (hx : r.address = some x) (hx' : r'.address = some x) :
    k = k' := by
  obtain ⟨rfl, hmem⟩ := (h.made.registers k r).1 hr
  obtain ⟨rfl, hmem'⟩ := (h.made.registers k' r').1 hr'
  have : Std.Symm fun r r' : Register => ∀ x, r.address = some x → r'.address ≠ some x :=
    ⟨fun _ _ hne x hx hx' => hne x hx' hx⟩
  have hpairwise := hfree.registers.pairwise.imp fun {_ _} hne => hne.2
  by_contra hne
  exact hpairwise.forall hmem hmem' (fun he => hne (congrArg Register.name he)) x hx hx'

theorem coherent (h : l.Resolved m blocks parts) (hfree : Free blocks parts.flatten)
    (hname : Identifier m.name) (henums : SharedEnums m.enums) : m.Coherent := by
  refine ⟨hname, ?_, henums.keyed, ?_, ?_, fun k r hr => (h.formed hr).coherent henums, ?_,
    henums.coherent, ?_, fun k k' r r' a hr hr' => h.addresses_distinct hfree hr hr'⟩
  · intro k r hr
    obtain ⟨rfl, hmem⟩ := (h.made.registers k r).1 hr
    exact ⟨rfl, Resolve.isIdentifier_iff.1 (hfree.registers.identifiers r hmem)⟩
  · intro b block hb
    obtain ⟨place, spec, hspec⟩ := h.exists_blockSpec hb
    exact ⟨hspec.name, hspec.identifier⟩
  · intro b block hb k t ht
    obtain ⟨place, spec, hspec⟩ := h.exists_blockSpec hb
    obtain ⟨tspec, -, hidentifier, htspec⟩ := hspec.registers.exists_left ht
    exact ⟨htspec.name, hidentifier⟩
  · intro b block k t hb ht
    exact (h.template_formed hb ht).coherent henums
  · intro b block hb k k' t t'
    obtain ⟨place, spec, hspec⟩ := h.exists_blockSpec hb
    exact hspec.offsets_distinct

end Listing.Resolved

/-- A map that was resolved from a listing is coherent. -/
theorem Listing.coherent_of_resolve {l : Listing} {m : RegisterMap}
    (h : l.resolve.result = .ok m) : m.Coherent := by
  obtain ⟨blocks, parts, hm, hfree⟩ := l.run_of_resolve h
  obtain ⟨hname, henums⟩ := l.enums_of_resolve h
  exact hm.coherent hfree hname henums

theorem Listing.chip_coherent : ∃ m, Listing.chip.resolve.result = .ok m ∧
    m.registers.size = 3 ∧ m.Coherent := by
  have hsize : Listing.chip.resolve.result.toOption.map (·.registers.size) = some 3 := by
    decide +kernel
  obtain ⟨m, hm, hsize⟩ := Success.exists_ok hsize
  exact ⟨m, hm, hsize, Listing.coherent_of_resolve hm⟩

end RegAtlas
