import RegAtlas.Proofs.Build

namespace RegAtlas

open Listing (Entry)
open Resolve (Addition Adds Assembly Context Distinct Free)

def Listing.without (l : Listing) (n : String) : Listing :=
  { l with registers := l.registers.erase n }

namespace Listing.Entry

def Asks (n : String) (e : Entry) (b i : String) : Prop :=
  match e with
  | .register _ => False
  | .block use => use.block = b ∧ ∃ start, use.Asks n i start

/-- The register is the entry `n` itself, or was made for an instance that the entry asks for. -/
def Brings (n : String) (e : Entry) (r : Register) : Prop :=
  match e with
  | .register _ => r.name = n
  | .block _ => ∃ o, r.origin = some o ∧ e.Asks n o.block o.instanceName

end Listing.Entry

/-- `m'` is `m` without what the entry `n` brought. -/
structure RegisterMap.Lacks (m : RegisterMap) (n : String) (e : Entry) (m' : RegisterMap) :
    Prop where
  registers : ∀ k r, m'.registers.get? k = some r ↔ m.registers.get? k = some r ∧ ¬e.Brings n r
  blocks : ∀ b, Option.Rel (fun block block' : BlockTemplate =>
    block' = { block with instances := block'.instances } ∧ ∀ i start,
      block'.instances.get? i = some start ↔ block.instances.get? i = some start ∧ ¬e.Asks n b i)
    (m.blocks.get? b) (m'.blocks.get? b)
  enums : m'.enums = m.enums
  rest : m' = { m with registers := m'.registers, blocks := m'.blocks }

namespace Resolve

variable {context : Context} {place : Breadcrumb} {n : String} {e : Entry}
  {blocks : Named BlockTemplate} {added before after : List Addition} {x y : Addition}
  {r : Register}

theorem Adds.asks_iff (h : Adds context place (n, e) added) {b i : String} :
    e.Asks n b i ↔ ∃ start, .instanceOf b i start ∈ added := by
  simp only [h.instanceOf_mem_iff]
  cases e with
  | register spec => simp [Entry.Asks]
  | block use => simp [Entry.Asks]

/-- Two additions that bring no register of one name and are not of one instance. -/
def Addition.Apart (blocks : Named BlockTemplate) (x y : Addition) : Prop :=
  (∀ r ∈ x.registers blocks, ∀ r' ∈ y.registers blocks, r.name ≠ r'.name) ∧
    ∀ p, x.instance? = some p → y.instance? ≠ some p

instance : Std.Symm (Addition.Apart blocks) :=
  ⟨fun _ _ h => ⟨fun r hr r' hr' he => h.1 r' hr' r hr he.symm, fun p hp hp' => h.2 p hp' hp⟩⟩

theorem Free.pairwise_apart {done : List Addition} (h : Free blocks done) :
    done.Pairwise (Addition.Apart blocks) := by
  have hnames := (List.pairwise_flatMap.1 (h.registers.pairwise.imp And.left)).2
  have hinstances := List.pairwise_filterMap.1 h.instances
  refine (hnames.and hinstances).imp fun hxy => ⟨hxy.1, fun p hp hp' => ?_⟩
  exact hxy.2 p hp p hp' rfl

theorem Free.apart (h : Free blocks (before ++ added ++ after)) (hx : x ∈ added)
    (hy : y ∈ before ++ after) : x.Apart blocks y := by
  have hpairwise := h.pairwise_apart
  rw [List.append_assoc, List.pairwise_append, List.pairwise_append] at hpairwise
  obtain ⟨-, ⟨-, -, hafter⟩, hbefore⟩ := hpairwise
  rcases List.mem_append.1 hy with hy | hy
  · exact Std.Symm.symm _ _ (hbefore y hy x (List.mem_append_left _ hx))
  · exact hafter x hx y hy

theorem Addition.origin_of_mem {b i : String} {start : Word}
    (hr : r ∈ (Addition.instanceOf b i start).registers blocks) :
    ∃ o, r.origin = some o ∧ o.block = b ∧ o.instanceName = i := by
  rw [registers] at hr
  cases hb : blocks.get? b with
  | none => simp [hb] at hr
  | some block =>
    rw [hb, Option.elim_some] at hr
    obtain ⟨t, -, rfl⟩ := List.mem_map.1 hr
    exact ⟨_, rfl, rfl, rfl⟩

theorem Adds.brings (h : Adds context place (n, e) added) (hx : x ∈ added)
    (hr : r ∈ x.registers blocks) : e.Brings n r := by
  cases e with
  | register spec =>
    obtain ⟨r', hr', rfl⟩ := h
    cases List.mem_singleton.1 hx
    cases List.mem_singleton.1 hr
    exact (register_ok hr').name
  | block use =>
    cases x with
    | register r' =>
      obtain ⟨spec, he, -⟩ := h.register_mem_iff.1 hx
      cases he
    | instanceOf b i start =>
      obtain ⟨o, ho, rfl, rfl⟩ := Addition.origin_of_mem hr
      exact ⟨o, ho, h.asks_iff.2 ⟨start, hx⟩⟩

theorem Adds.not_brings (h : Adds context place (n, e) added)
    (happart : ∀ x ∈ added, x.Apart blocks y) (hy : ∀ r, y = .register r → r.origin = none)
    (hr : r ∈ y.registers blocks) : ¬e.Brings n r := by
  -- What other entries bring is not brought by this one.
  cases e with
  | register spec =>
    obtain ⟨r', hr', rfl⟩ := h
    intro hname
    have hne := (happart _ List.mem_cons_self).1 r' List.mem_cons_self r hr
    exact hne ((register_ok hr').name.trans (Eq.symm hname))
  | block use =>
    rintro ⟨o, ho, hasks⟩
    obtain ⟨start, hmem⟩ := h.asks_iff.1 hasks
    cases y with
    | register r' =>
      cases List.mem_singleton.1 hr
      rw [hy r rfl] at ho
      cases ho
    | instanceOf b i start' =>
      obtain ⟨o', ho', rfl, rfl⟩ := Addition.origin_of_mem hr
      cases ho.symm.trans ho'
      exact (happart _ hmem).2 _ rfl rfl

theorem mem_around_iff : x ∈ before ++ added ++ after ↔ x ∈ before ++ after ∨ x ∈ added := by
  simp only [List.mem_append]
  exact or_right_comm

theorem Free.instanceOf_mem_iff (hfree : Free blocks (before ++ added ++ after))
    (hadds : Adds context place (n, e) added) {b i : String} {start : Word} :
    .instanceOf b i start ∈ before ++ after ↔
      .instanceOf b i start ∈ before ++ added ++ after ∧ ¬e.Asks n b i := by
  rw [hadds.asks_iff]
  constructor
  · intro hmem
    refine ⟨mem_around_iff.2 (.inl hmem), ?_⟩
    rintro ⟨start', hmem'⟩
    exact (hfree.apart hmem' hmem).2 _ rfl rfl
  · rintro ⟨hmem, hnot⟩
    exact (mem_around_iff.1 hmem).resolve_right fun hadded => hnot ⟨start, hadded⟩

theorem Adds.register_origin {es : List (String × Entry)} {parts : List (List Addition)}
    (h : List.Forall₂ (Adds context place) es parts) (hr : .register r ∈ parts.flatten) :
    r.origin = none := by
  obtain ⟨added, hadded, hr⟩ := List.mem_flatten.1 hr
  obtain ⟨e, -, hadds⟩ := Table.exists_of_forall₂_right h hadded
  obtain ⟨spec, -, hr⟩ := hadds.register_mem_iff.1 hr
  exact (register_ok hr).origin

namespace Assembly

variable {a a' : Assembly} (hm : Made blocks (before ++ added ++ after) a)
  (hm' : Made blocks (before ++ after) a') (hfree : Free blocks (before ++ added ++ after))
  (hadds : Adds context place (n, e) added)

include hm hm' hfree hadds

theorem Made.get?_register_iff (horigin : ∀ r, .register r ∈ before ++ after → r.origin = none)
    {k : String} :
    a'.registers.get? k = some r ↔ a.registers.get? k = some r ∧ ¬e.Brings n r := by
  rw [hm.registers, hm'.registers, and_assoc, List.mem_flatMap, List.mem_flatMap]
  refine and_congr_right fun _ => ⟨?_, ?_⟩
  · rintro ⟨y, hy, hr⟩
    refine ⟨⟨y, mem_around_iff.2 (.inl hy), hr⟩, ?_⟩
    refine hadds.not_brings (fun x hx => hfree.apart hx hy) ?_ hr
    rintro r' rfl
    exact horigin r' hy
  · rintro ⟨⟨x, hx, hr⟩, hbrings⟩
    refine ⟨x, (mem_around_iff.1 hx).resolve_right fun hadded => ?_, hr⟩
    exact hbrings (hadds.brings hadded hr)

theorem Made.blocks_rel (b : String) : Option.Rel (fun block block' : BlockTemplate =>
    block' = { block with instances := block'.instances } ∧ ∀ i start,
      block'.instances.get? i = some start ↔ block.instances.get? i = some start ∧ ¬e.Asks n b i)
    (a.blocks.get? b) (a'.blocks.get? b) := by
  have hbare := (hm.templates b).trans (hm'.templates b).symm
  cases hb : a.blocks.get? b with
  | none =>
    rw [hb] at hbare
    rw [Option.map_eq_none_iff.1 hbare.symm]
    exact .none
  | some block =>
    cases hb' : a'.blocks.get? b with
    | none => simp [hb, hb'] at hbare
    | some block' =>
      rw [hb, hb', Option.map_some, Option.map_some, Option.some.injEq,
        BlockTemplate.mk.injEq] at hbare
      refine .some ⟨?_, fun i start => ?_⟩
      · obtain ⟨name, docs, registers, instances⟩ := block'
        obtain ⟨rfl, rfl, rfl, -⟩ := hbare
        rfl
      · rw [hm.instances b block hb, hm'.instances b block' hb']
        exact hfree.instanceOf_mem_iff hadds

end Assembly

end Resolve

namespace Listing

variable {l : Listing} {m : RegisterMap} {n : String} {e : Entry}

/-- The run over the registers section is the last stage of resolving, and the only one that the
section has a part in. -/
theorem run_of_resolve_ok (h : l.resolve.result = .ok m) : ∃ blocks,
    Assembly.Made blocks [] ⟨blocks, .empty⟩ ∧
    (l.registers.entries.foldlM (Resolve.entry ⟨l.defaultWidth, m.enums⟩ [l.name, "registers"])
      ⟨blocks, .empty⟩).result = .ok ⟨m.blocks, m.registers⟩ ∧
    ∀ registers a, (registers.entries.foldlM
        (Resolve.entry ⟨l.defaultWidth, m.enums⟩ [l.name, "registers"]) ⟨blocks, .empty⟩).result =
        .ok a →
      ({ l with registers := registers } : Listing).resolve.result =
        .ok { m with registers := a.registers, blocks := a.blocks } := by
  obtain ⟨blocks, h⟩ := resolve_ok_iff.1 h
  refine ⟨blocks, .start_of_table h.templates, h.run, fun registers a ha => ?_⟩
  exact resolve_ok_iff.2 ⟨blocks, { h with run := ha }⟩

theorem exists_resolve_without (h : l.resolve.result = .ok m) (he : l.registers.get? n = some e) :
    ∃ m', (l.without n).resolve.result = .ok m' ∧ m.Lacks n e m' := by
  obtain ⟨blocks, hstart, hrun, hother⟩ := run_of_resolve_ok h
  obtain ⟨parts, hparts, hmade, hfree⟩ := Resolve.entries_ok hstart hrun
  obtain ⟨before, after, hentries, herased⟩ := Table.exists_entries_erase he
  rw [hentries] at hparts
  obtain ⟨done, added, rest, rfl, hdone, hadds, hrest⟩ :=
    Table.exists_of_forall₂_append_cons hparts
  rw [List.flatten_append, List.flatten_cons, ← List.append_assoc] at hmade hfree
  have hothers : List.Forall₂ (Adds ⟨l.defaultWidth, m.enums⟩ [l.name, "registers"])
      (before ++ after) (done ++ rest) := List.rel_append hdone hrest
  have hfree' : Free blocks (done ++ rest).flatten := by
    rw [List.flatten_append]
    exact hfree.sublist ((List.sublist_append_left _ _).append_right _)
  obtain ⟨a', hrun', hmade'⟩ := Resolve.exists_entries_ok hstart hothers hfree'
  rw [← herased] at hrun'
  have horigin : ∀ r, .register r ∈ done.flatten ++ rest.flatten → r.origin = none := by
    intro r hr
    rw [← List.flatten_append] at hr
    exact Adds.register_origin hothers hr
  rw [List.flatten_append] at hmade'
  exact ⟨_, hother _ a' hrun', {
    registers := fun k r => Assembly.Made.get?_register_iff hmade hmade' hfree hadds horigin
    blocks := Assembly.Made.blocks_rel hmade hmade' hfree hadds
    enums := rfl
    rest := rfl }⟩

end Listing

theorem RegisterMap.WellFormed.of_lacks {m m' : RegisterMap} {n : String} {e : Entry}
    (h : m.WellFormed) (hm : m.Lacks n e m') : m'.WellFormed where
  addresses_distinct k k' r r' a hr hr' :=
    h.addresses_distinct k k' r r' a ((hm.registers k r).1 hr).1 ((hm.registers k' r').1 hr').1
  registers k r hr := h.registers k r ((hm.registers k r).1 hr).1
  templates b block' k t hb ht := by
    have hrel := hm.blocks b
    rw [hb] at hrel
    cases hblock : m.blocks.get? b with
    | none =>
      rw [hblock] at hrel
      cases hrel
    | some block =>
      rw [hblock] at hrel
      cases hrel with
      | some hblocks =>
        rw [hblocks.1] at ht
        exact h.templates b block k t hblock ht

/-- A listing that describes a map does so without any of its entries, and the map then lacks
exactly what that entry brought. -/
theorem Listing.build_without {l : Listing} {m : RegisterMap} {n : String} {e : Entry}
    (h : l.build.result = .ok m) (he : l.registers.get? n = some e) :
    ∃ m', (l.without n).build.result = .ok m' ∧ m.Lacks n e m' := by
  obtain ⟨hresolve, hcheck⟩ := Listing.build_ok_iff.1 h
  obtain ⟨m', hresolve', hlacks⟩ := Listing.exists_resolve_without hresolve he
  have hformed := (RegisterMap.WellFormed.of_check hcheck).of_lacks hlacks
  exact ⟨m', Listing.build_ok_iff.2 ⟨hresolve', hformed.check⟩, hlacks⟩

theorem Listing.chip_without_channels : ∃ m m', Listing.chip.build.result = .ok m ∧
    (Listing.chip.without "CH#_").build.result = .ok m' ∧
    m.registers.keys = ["CH0_CONTROL", "CH1_CONTROL", "STATUS"] ∧ m'.registers.keys = ["STATUS"] ∧
    ∃ e, Listing.chip.registers.get? "CH#_" = some e ∧ m.Lacks "CH#_" e m' := by
  have hkeys : Listing.chip.build.result.toOption.map (·.registers.keys) =
      some ["CH0_CONTROL", "CH1_CONTROL", "STATUS"] := by decide +kernel
  have hkeys' : (Listing.chip.without "CH#_").build.result.toOption.map (·.registers.keys) =
      some ["STATUS"] := by decide +kernel
  have hentry : (Listing.chip.registers.get? "CH#_").isSome = true := by decide +kernel
  obtain ⟨m, hm, hkeys⟩ := Success.exists_ok hkeys
  obtain ⟨m', hm', hkeys'⟩ := Success.exists_ok hkeys'
  obtain ⟨e, he⟩ := Option.isSome_iff_exists.1 hentry
  obtain ⟨m'', hm'', hlacks⟩ := Listing.build_without hm he
  cases hm'.symm.trans hm''
  exact ⟨m, m', hm, hm', hkeys, hkeys', e, he, hlacks⟩

end RegAtlas
