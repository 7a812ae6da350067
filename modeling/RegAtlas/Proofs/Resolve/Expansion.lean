import RegAtlas.Proofs.Resolve.Collision
import Mathlib.Data.Set.Function

namespace RegAtlas

open Listing (BlockUse)
open Resolve (Addition Adds Assembly Context Free stamped)

/-- The listing asks for an instance `i` of the block `b` that starts at `start`. -/
def Listing.Instantiates (l : Listing) (b i : String) (start : Word) : Prop :=
  ∃ name use, l.registers.get? name = some (.block use) ∧ use.block = b ∧ use.Asks name i start

/-- A block, one of its instances and one of its template registers. -/
def RegisterMap.Triple (m : RegisterMap) (p : String × String × String) : Prop :=
  ∃ block, m.blocks.get? p.1 = some block ∧ (∃ start, block.instances.get? p.2.1 = some start) ∧
    ∃ t, block.registers.get? p.2.2 = some t

def RegisterMap.Stamped (m : RegisterMap) (k : String) : Prop :=
  ∃ r o, m.registers.get? k = some r ∧ r.origin = some o

structure Listing.Expands (l : Listing) (m : RegisterMap) : Prop where
  /-- Registers made from templates and triples belong to each other, one to one. -/
  bijective : Set.BijOn (fun p : String × String × String => p.2.1 ++ p.2.2)
    {p | m.Triple p} {k | m.Stamped k}
  register : ∀ b block i start k t, m.blocks.get? b = some block →
    block.instances.get? i = some start → block.registers.get? k = some t → t.name = k ∧
      ∃ r address, m.registers.get? (i ++ t.name) = some r ∧ r.name = i ++ t.name ∧
        r.address = some address ∧ address.toNat = start.toNat + t.offset.toNat ∧
        r.width = t.width ∧ r.fields = t.fields ∧ r.resetValue = t.resetValue ∧
        r.alwaysWrite = t.alwaysWrite ∧ r.docs = t.docs ∧ r.origin = some ⟨b, i, t.name⟩
  /-- A block has the instances that the listing asks for. -/
  instances : ∀ b block, m.blocks.get? b = some block → ∀ i start,
    block.instances.get? i = some start ↔ l.Instantiates b i start
  known : ∀ b i start, l.Instantiates b i start → ∃ block, m.blocks.get? b = some block
  plain : ∀ k r, (m.registers.get? k = some r ∧ r.origin = none) ↔
    ∃ spec, l.registers.get? k = some (.register spec) ∧
      (Resolve.register ⟨l.defaultWidth, m.enums⟩ [l.name, "registers", k] k spec).result = .ok r

/-- How a map came about: its block templates, and what each entry of the listing added. -/
structure Listing.Resolved (l : Listing) (m : RegisterMap) (blocks : Named BlockTemplate)
    (parts : List (List Addition)) : Prop where
  templates : Table.Pointwise (fun b spec block => (Resolve.block ⟨l.defaultWidth, m.enums⟩
    [l.name, "register_block_templates"] b spec).result = .ok block) l.blocks.entries blocks.entries
  added : List.Forall₂ (Adds ⟨l.defaultWidth, m.enums⟩ [l.name, "registers"])
    l.registers.entries parts
  made : Assembly.Made blocks parts.flatten ⟨m.blocks, m.registers⟩

theorem Listing.run_of_resolve {l : Listing} {m : RegisterMap} (h : l.resolve.result = .ok m) :
    ∃ blocks parts, l.Resolved m blocks parts ∧ Free blocks parts.flatten := by
  obtain ⟨blocks, h⟩ := Listing.resolve_ok_iff.1 h
  obtain ⟨parts, hparts, hmade, hfree⟩ :=
    Resolve.entries_ok (Assembly.Made.start_of_table h.templates) h.run
  exact ⟨blocks, parts, ⟨Resolve.table_ok h.templates, hparts, hmade⟩, hfree⟩

theorem Listing.resolved_of_resolve {l : Listing} {m : RegisterMap}
    (h : l.resolve.result = .ok m) : ∃ blocks parts, l.Resolved m blocks parts := by
  obtain ⟨blocks, parts, hm, -⟩ := l.run_of_resolve h
  exact ⟨blocks, parts, hm⟩

namespace Listing.Resolved

variable {l : Listing} {m : RegisterMap} {blocks : Named BlockTemplate}
  {parts : List (List Addition)}

theorem register_mem_iff (h : l.Resolved m blocks parts) {r : Register} :
    .register r ∈ parts.flatten ↔ ∃ k spec, l.registers.get? k = some (.register spec) ∧
      (Resolve.register ⟨l.defaultWidth, m.enums⟩ [l.name, "registers", k] k spec).result =
        .ok r := by
  rw [List.mem_flatten]
  constructor
  · rintro ⟨added, hadded, hr⟩
    obtain ⟨⟨k, e⟩, he, hadds⟩ := Table.exists_of_forall₂_right h.added hadded
    obtain ⟨spec, rfl, hr⟩ := hadds.register_mem_iff.1 hr
    exact ⟨k, spec, Table.mem_entries_iff.1 he, hr⟩
  · rintro ⟨k, spec, hk, hr⟩
    obtain ⟨added, hadded, hadds⟩ :=
      Table.exists_of_forall₂_left h.added (Table.mem_entries_iff.2 hk)
    exact ⟨_, hadded, hadds.register_mem_iff.2 ⟨spec, rfl, hr⟩⟩

theorem instanceOf_mem_iff (h : l.Resolved m blocks parts) {b i : String} {start : Word} :
    .instanceOf b i start ∈ parts.flatten ↔ l.Instantiates b i start := by
  rw [List.mem_flatten]
  constructor
  · rintro ⟨added, hadded, hi⟩
    obtain ⟨⟨k, e⟩, he, hadds⟩ := Table.exists_of_forall₂_right h.added hadded
    obtain ⟨use, rfl, hasks⟩ := hadds.instanceOf_mem_iff.1 hi
    exact ⟨k, use, Table.mem_entries_iff.1 he, hasks⟩
  · rintro ⟨k, use, hk, hasks⟩
    obtain ⟨added, hadded, hadds⟩ :=
      Table.exists_of_forall₂_left h.added (Table.mem_entries_iff.2 hk)
    exact ⟨_, hadded, hadds.instanceOf_mem_iff.2 ⟨use, rfl, hasks⟩⟩

theorem get?_block (h : l.Resolved m blocks parts) {b : String} {block : BlockTemplate}
    (hb : m.blocks.get? b = some block) :
    blocks.get? b = some { block with instances := .empty } := by
  rw [← h.made.templates, hb]
  rfl

theorem get?_template (h : l.Resolved m blocks parts) {b k : String} {block : BlockTemplate}
    {t : TemplateRegister} (hb : blocks.get? b = some block)
    (ht : block.registers.get? k = some t) :
    ∃ place spec, Resolve.TemplateOf ⟨l.defaultWidth, m.enums⟩ place k spec t := by
  obtain ⟨spec, -, hspec⟩ := h.templates.exists_left hb
  obtain ⟨tspec, -, -, htspec⟩ := (Resolve.block_ok hspec).registers.exists_left ht
  exact ⟨_, tspec, htspec⟩

theorem get?_register_iff (h : l.Resolved m blocks parts) {k : String} {r : Register} :
    m.registers.get? k = some r ↔ r.name = k ∧ (.register r ∈ parts.flatten ∨
      ∃ b i start block n t, l.Instantiates b i start ∧ blocks.get? b = some block ∧
        block.registers.get? n = some t ∧ r = stamped b i start t) := by
  rw [h.made.registers, List.mem_flatMap]
  refine and_congr_right fun _ => ⟨?_, ?_⟩
  · rintro ⟨added, hadded, hr⟩
    cases added with
    | register r' =>
      cases List.mem_singleton.1 hr
      exact .inl hadded
    | instanceOf b i start =>
      obtain ⟨block, hb, -⟩ := h.made.known b i start hadded
      simp only [Addition.registers, hb, Option.elim_some, List.mem_map,
        Table.mem_values_iff] at hr
      obtain ⟨t, ⟨n, ht⟩, rfl⟩ := hr
      exact .inr ⟨b, i, start, block, n, t, h.instanceOf_mem_iff.1 hadded, hb, ht, rfl⟩
  · rintro (hr | ⟨b, i, start, block, n, t, hi, hb, ht, rfl⟩)
    · exact ⟨_, hr, List.mem_singleton.2 rfl⟩
    · refine ⟨_, h.instanceOf_mem_iff.2 hi, ?_⟩
      simp only [Addition.registers, hb, Option.elim_some, List.mem_map, Table.mem_values_iff]
      exact ⟨t, ⟨n, ht⟩, rfl⟩

theorem get?_blocks_iff (h : l.Resolved m blocks parts) {b : String}
    {rs : Named TemplateRegister} :
    (∃ block, m.blocks.get? b = some block ∧ block.registers = rs) ↔
      ∃ block, blocks.get? b = some block ∧ block.registers = rs := by
  rw [← h.made.templates]
  cases m.blocks.get? b with
  | none => simp
  | some block => simp

theorem instance_iff (h : l.Resolved m blocks parts) {b i : String} {block : BlockTemplate}
    {start : Word} (hb : m.blocks.get? b = some block) :
    block.instances.get? i = some start ↔ l.Instantiates b i start :=
  (h.made.instances b block hb i start).trans h.instanceOf_mem_iff

theorem template_name (h : l.Resolved m blocks parts) {b k : String} {block : BlockTemplate}
    {t : TemplateRegister} (hb : m.blocks.get? b = some block)
    (ht : block.registers.get? k = some t) : t.name = k := by
  obtain ⟨place, spec, hspec⟩ := h.get?_template (h.get?_block hb) ht
  exact hspec.name

theorem template_formed (h : l.Resolved m blocks parts) {b k : String} {block : BlockTemplate}
    {t : TemplateRegister} (hb : m.blocks.get? b = some block)
    (ht : block.registers.get? k = some t) :
    Resolve.Formed ⟨l.defaultWidth, m.enums⟩ t.form := by
  obtain ⟨place, spec, hspec⟩ := h.get?_template (h.get?_block hb) ht
  exact hspec.formed

theorem formed (h : l.Resolved m blocks parts) {k : String} {r : Register}
    (hr : m.registers.get? k = some r) : Resolve.Formed ⟨l.defaultWidth, m.enums⟩ r.form := by
  obtain ⟨-, hr | ⟨b, i, start, block, n, t, -, hb, ht, rfl⟩⟩ := h.get?_register_iff.1 hr
  · obtain ⟨k, spec, -, hspec⟩ := h.register_mem_iff.1 hr
    exact (Resolve.register_ok hspec).formed
  · obtain ⟨place, spec, hspec⟩ := h.get?_template hb ht
    exact hspec.formed

theorem get?_stamped (h : l.Resolved m blocks parts) {b i k : String} {block : BlockTemplate}
    {t : TemplateRegister} {start : Word} (hb : m.blocks.get? b = some block)
    (hi : block.instances.get? i = some start) (ht : block.registers.get? k = some t) :
    m.registers.get? (i ++ t.name) = some (stamped b i start t) :=
  h.get?_register_iff.2 ⟨rfl, .inr ⟨b, i, start, _, k, t, (h.instance_iff hb).1 hi,
    h.get?_block hb, ht, rfl⟩⟩

theorem exists_triple (h : l.Resolved m blocks parts) {k : String} {r : Register}
    {o : TemplateOrigin}
    (hr : m.registers.get? k = some r) (ho : r.origin = some o) :
    ∃ i n, k = i ++ n ∧ ∃ b, m.Triple (b, i, n) := by
  obtain ⟨rfl, hr | ⟨b, i, start, bare, n, t, hi, hb, ht, rfl⟩⟩ := h.get?_register_iff.1 hr
  · obtain ⟨k, spec, -, hspec⟩ := h.register_mem_iff.1 hr
    rw [(Resolve.register_ok hspec).origin] at ho
    cases ho
  · obtain ⟨block, hblock, hregs⟩ := h.get?_blocks_iff.2 ⟨bare, hb, rfl⟩
    rw [← hregs] at ht
    have hname := h.template_name hblock ht
    refine ⟨i, n, congrArg (i ++ ·) hname, b, block, hblock, ?_, t, ht⟩
    exact ⟨start, (h.instance_iff hblock).2 hi⟩

theorem bijOn (h : l.Resolved m blocks parts) :
    Set.BijOn (fun p : String × String × String => p.2.1 ++ p.2.2)
      {p | m.Triple p} {k | m.Stamped k} := by
  refine ⟨?_, ?_, ?_⟩
  · rintro ⟨b, i, n⟩ ⟨block, hb, ⟨start, hi⟩, t, ht⟩
    have hname := h.template_name hb ht
    subst hname
    exact ⟨_, _, h.get?_stamped hb hi ht, rfl⟩
  · -- The register of a triple carries the triple as its origin.
    rintro ⟨b, i, n⟩ ⟨block, hb, ⟨start, hi⟩, t, ht⟩ ⟨b', i', n'⟩
      ⟨block', hb', ⟨start', hi'⟩, t', ht'⟩ hkey
    have hname := h.template_name hb ht
    have hname' := h.template_name hb' ht'
    subst hname hname'
    have hr := h.get?_stamped hb hi ht
    have hr' := h.get?_stamped hb' hi' ht'
    dsimp only at hkey
    rw [hkey, hr'] at hr
    have horigin := congrArg (fun r => r.map Register.origin) hr
    simp only [stamped, Option.map_some, Option.some.injEq, TemplateOrigin.mk.injEq] at horigin
    rw [horigin.1, horigin.2.1, horigin.2.2]
  · rintro k ⟨r, o, hr, ho⟩
    obtain ⟨i, n, rfl, b, htriple⟩ := h.exists_triple hr ho
    exact ⟨(b, i, n), htriple, rfl⟩

theorem plain_iff (h : l.Resolved m blocks parts) {k : String} {r : Register} :
    (m.registers.get? k = some r ∧ r.origin = none) ↔
      ∃ spec, l.registers.get? k = some (.register spec) ∧
        (Resolve.register ⟨l.defaultWidth, m.enums⟩ [l.name, "registers", k] k spec).result =
          .ok r := by
  rw [h.get?_register_iff]
  constructor
  · rintro ⟨⟨rfl, hr | ⟨b, i, start, block, n, t, -, -, -, rfl⟩⟩, ho⟩
    · obtain ⟨k, spec, hk, hspec⟩ := h.register_mem_iff.1 hr
      have hname := (Resolve.register_ok hspec).name
      subst hname
      exact ⟨spec, hk, hspec⟩
    · cases ho
  · rintro ⟨spec, hk, hspec⟩
    have hr := Resolve.register_ok hspec
    exact ⟨⟨hr.name, .inl (h.register_mem_iff.2 ⟨k, spec, hk, hspec⟩)⟩, hr.origin⟩

end Listing.Resolved

/-- A map that was resolved from a listing has exactly the registers that the listing asks for. -/
theorem Listing.expands_of_resolve {l : Listing} {m : RegisterMap}
    (h : l.resolve.result = .ok m) : l.Expands m := by
  obtain ⟨blocks, parts, hm⟩ := l.resolved_of_resolve h
  refine ⟨hm.bijOn, ?_, fun b block hb i start => hm.instance_iff hb, ?_, fun k r => hm.plain_iff⟩
  · intro b block i start k t hb hi ht
    obtain ⟨bare, hbare, hfit⟩ := hm.made.known b i start
      (hm.instanceOf_mem_iff.2 ((hm.instance_iff hb).1 hi))
    cases (hm.get?_block hb).symm.trans hbare
    have hsum : (start + t.offset).toNat = start.toNat + t.offset.toNat :=
      BitVec.toNat_add_of_lt (hfit k t ht)
    exact ⟨hm.template_name hb ht, _, _, hm.get?_stamped hb hi ht, rfl, rfl, hsum, rfl, rfl, rfl,
      rfl, rfl, rfl⟩
  · intro b i start hi
    obtain ⟨bare, hbare, -⟩ := hm.made.known b i start (hm.instanceOf_mem_iff.2 hi)
    obtain ⟨block, hblock, -⟩ := hm.get?_blocks_iff.2 ⟨bare, hbare, rfl⟩
    exact ⟨block, hblock⟩

/-- A listing with a register of its own, in which a field is split, and a block with two
instances. -/
def Listing.chip : Listing :=
  let field (bits : Listing.BitSpec) : Listing.FieldSpec := ⟨bits, none, none, none, none⟩
  let status : Listing.RegisterSpec :=
    { fields := .ofList [("LEVEL", field (.range "3-1")),
        ("MODE", field (.list [.bit 0, .range "5-4"]))]
      address := some 0x10#64
      width := none
      access := none
      resetValue := some 0x83#64
      alwaysWrite := some ⟨.bit 7, .single 0x80#64⟩
      brief := none
      doc := none }
  let control : Listing.TemplateSpec :=
    { offset := 4#64
      fields := .ofList [("RATE", field (.span 2 9))]
      width := some 12
      access := none
      resetValue := none
      alwaysWrite := none
      brief := none
      doc := none }
  { name := "chip"
    defaultWidth := some 8
    brief := none
    doc := none
    author := none
    note := none
    registers := .ofList [("STATUS", .register status),
      ("CH#_", .block ⟨"Channel", .byId (.ofList [("0", 0x100#64), ("1", 0x200#64)]), some "#"⟩)]
    enums := .empty
    blocks := .ofList [("Channel", ⟨.ofList [("CONTROL", control)], none, none⟩)] }

theorem Listing.chip_expands : ∃ m, Listing.chip.resolve.result = .ok m ∧
    m.registers.keys = ["CH0_CONTROL", "CH1_CONTROL", "STATUS"] ∧ Listing.chip.Expands m := by
  have hkeys : Listing.chip.resolve.result.toOption.map (·.registers.keys) =
      some ["CH0_CONTROL", "CH1_CONTROL", "STATUS"] := by decide +kernel
  obtain ⟨m, hm, hkeys⟩ := Success.exists_ok hkeys
  exact ⟨m, hm, hkeys, Listing.expands_of_resolve hm⟩

end RegAtlas
