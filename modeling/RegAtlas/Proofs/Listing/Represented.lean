import RegAtlas.Listing.Text
import RegAtlas.Proofs.Build
import RegAtlas.Proofs.Listing.Written
import RegAtlas.Proofs.Resolve.Coherence

namespace RegAtlas

open Resolve (SharedEnums stamped)
open Table (FilledBy kept)

def Field.ownEntries (f : Field) : Named EnumEntry := f.localEnum.elim .empty Enumeration.entries

/-- There is the instance `i` of the block `b`, with a register for each template register. -/
def RegisterMap.HasInstance (m : RegisterMap) (b i : String) (start : Word) : Prop :=
  ∃ block, m.blocks.get? b = some block ∧ block.instances.get? i = some start ∧
    ∀ k t, block.registers.get? k = some t →
      m.registers.get? (i ++ k) = some (stamped b i start t)

namespace Listing

def Entry.address? : Entry → Option Word
  | .register spec => spec.address
  | .block _ => none

namespace Written

def EntryAs (k : String) (v : Node) (e : EnumEntry) : Prop :=
  ∃ spec, readEntrySpec v = .ok spec ∧ e.name = k ∧ e.value = spec.value

variable (pick : List (String × Node) → List (String × Node))

structure FieldAs (k : String) (v : Node) (f : Field) : Prop where
  name : f.name = k
  bits : ∃ spec place, readField v = .ok spec ∧
    (Resolve.bits spec.bits place).result = .ok f.bits
  entries : FilledBy EntryAs (pick (ownEntries v)) f.ownEntries

structure TemplateAs (k : String) (v : Node) (t : TemplateRegister) : Prop where
  name : t.name = k
  offset : ∃ spec, readTemplate v = .ok spec ∧ t.offset = spec.offset
  fields : FilledBy (FieldAs pick) (pick (templateFields v)) t.fields

structure BlockAs (k : String) (v : Node) (b : BlockTemplate) : Prop where
  name : b.name = k
  registers : FilledBy (TemplateAs pick) (pick (templates v)) b.registers

structure EnumAs (k : String) (v : Node) (e : Enumeration) : Prop where
  name : e.name = k
  shared : e.shared = true
  entries : FilledBy EntryAs (pick (entries v)) e.entries

structure RegisterAs (k : String) (v : Node) (r : Register) : Prop where
  name : r.name = k
  address : ∃ spec, readEntry v = .ok (.register spec) ∧ r.address = spec.address
  fields : FilledBy (FieldAs pick) (pick (fields v)) r.fields

/-- The value `v` at the name `k` asks for the instance `i` of the block `b`. -/
inductive Asks (k : String) (v : Node) (b i : String) (start : Word) : Prop
  | single (use : BlockUse) (hv : readEntry v = .ok (.block use)) (hb : use.block = b)
      (hstart : use.start = .single start) (hi : i = k)
  | byId (use : BlockUse) (hv : readEntry v = .ok (.block use)) (hb : use.block = b)
      (id : String) (w : Node) (hid : (id, w) ∈ pick (starts v)) (hw : readWord w = .ok start)
      (hi : InstanceNamed k id use.replace i)

/-- What the value `v` at the name `k` of the registers section stands for is in the map. -/
inductive EntryIn (m : RegisterMap) (k : String) (v : Node) : Prop
  | register (r : Register) (hr : m.registers.get? k = some r) (horigin : r.origin = none)
      (has : RegisterAs pick k v r)
  | single (use : BlockUse) (hv : readEntry v = .ok (.block use)) (start : Word)
      (hstart : use.start = .single start) (has : m.HasInstance use.block k start)
  | byId (use : BlockUse) (hv : readEntry v = .ok (.block use)) (addresses : Named Word)
      (hstart : use.start = .byId addresses)
      (has : ∀ p ∈ pick (starts v), ∃ i start, readWord p.2 = .ok start ∧
        InstanceNamed k p.1 use.replace i ∧ m.HasInstance use.block i start)

/-- The map has what is written in the document, and nothing else. -/
structure Represented (n : Node) (m : RegisterMap) : Prop where
  registers : ∀ p ∈ pick (Written.registers n), EntryIn pick m p.1 p.2
  enums : FilledBy (EnumAs pick) (pick (Written.enums n)) m.enums
  blocks : FilledBy (BlockAs pick) (pick (Written.blocks n)) m.blocks
  written : ∀ k r, m.registers.get? k = some r → r.origin = none →
    ∃ v, (k, v) ∈ pick (Written.registers n) ∧ RegisterAs pick k v r
  asked : ∀ b block i start, m.blocks.get? b = some block → block.instances.get? i = some start →
    ∃ k v, (k, v) ∈ pick (Written.registers n) ∧ Asks pick k v b i start

variable {pick} {k : String} {v n : Node} {place : Breadcrumb} {shared : Named Enumeration}
  {ps : List (String × Node)}

theorem entries_as {specs : Named EntrySpec} {es : Named EnumEntry}
    (hps : FilledBy (fun _ v e => readEntrySpec v = .ok e) ps specs)
    (h : Resolve.entries specs place = .ok es) : FilledBy EntryAs ps es :=
  hps.trans (Resolve.enumEntries_ok h).1 fun _ _ spec _ hv he => ⟨spec, hv, he.name, he.value⟩

theorem ownEntries_as (henums : SharedEnums shared) {docs : Docs} {spec : Option EnumSpec}
    (hps : FilledBy (fun _ v e => readEntrySpec v = .ok e) ps
      (spec.elim .empty EnumSpec.ownEntries))
    {f : Field} (h : Resolve.FieldEnumOf shared k docs place spec f.enumeration) :
    FilledBy EntryAs ps f.ownEntries := by
  have nothing (hps : FilledBy (fun _ v e => readEntrySpec v = .ok e) ps .empty)
      (hf : f.localEnum = none) : FilledBy EntryAs ps f.ownEntries := by
    rw [Field.ownEntries, hf]
    exact hps.trans (S := fun _ _ _ => False) .nil fun _ _ _ _ _ => False.elim
  generalize he : f.enumeration = e at h
  cases h with
  | none => exact nothing hps (by rw [Field.localEnum, he]; rfl)
  | @shared n e hget =>
    have hshared := (henums.coherent n e hget).1
    exact nothing hps (by simp [Field.localEnum, he, hshared])
  | own hes =>
    rw [Field.ownEntries, Field.localEnum, he]
    exact entries_as hps hes

theorem field_as (henums : SharedEnums shared) {inherited : List Access} {spec : FieldSpec}
    {f : Field} (hv : readField v = .ok spec)
    (h : Resolve.FieldOf shared inherited place k spec f)
    (hpick : pick (ownEntries v) = kept (ownEntries v)) : FieldAs pick k v f := by
  refine ⟨h.name, ⟨spec, _, hv, h.bits⟩, ?_⟩
  rw [hpick]
  exact ownEntries_as henums (readField_ok hv) h.enumeration

theorem fields_as (henums : SharedEnums shared) {inherited : List Access}
    {specs : Named FieldSpec} {fs : Named Field}
    (hps : FilledBy (fun _ v f => readField v = .ok f) (kept ps) specs)
    (h : Table.Pointwise (Resolve.FieldOf shared inherited place) specs.entries fs.entries)
    (hpick : ∀ t ∈ fieldTables ps, pick t = kept t) : FilledBy (FieldAs pick) (pick ps) fs := by
  rw [hpick ps List.mem_cons_self]
  refine hps.trans h fun p hp spec f hv hf => field_as henums hv hf ?_
  exact hpick _ (List.mem_cons_of_mem _ (List.mem_map_of_mem (Table.mem_of_mem_kept hp)))

theorem template_as {context : Resolve.Context} (henums : SharedEnums context.enums)
    {spec : TemplateSpec} {t : TemplateRegister} (hv : readTemplate v = .ok spec)
    (h : Resolve.TemplateOf context place k spec t)
    (hpick : ∀ t ∈ fieldTables (templateFields v), pick t = kept t) : TemplateAs pick k v t := by
  obtain ⟨access, -, hfields⟩ := h.form.fields
  exact ⟨h.name, ⟨spec, hv, h.offset⟩, fields_as henums (readTemplate_ok hv) hfields hpick⟩

theorem block_as {context : Resolve.Context} (henums : SharedEnums context.enums)
    {spec : BlockSpec} {b : BlockTemplate} (hv : readBlock v = .ok spec)
    (h : (Resolve.block context place k spec).result = .ok b)
    (htemplates : pick (templates v) = kept (templates v))
    (hpick : ∀ p ∈ templates v, ∀ t ∈ fieldTables (templateFields p.2), pick t = kept t) :
    BlockAs pick k v b := by
  refine ⟨(Resolve.block_ok h).name, ?_⟩
  rw [htemplates]
  exact (readBlock_ok hv).trans (Resolve.block_ok h).registers fun p hp spec t hv ht =>
    template_as henums hv ht.2 (hpick p (Table.mem_of_mem_kept hp))

theorem enum_as {spec : SharedEnumSpec} {e : Enumeration} (hv : readSharedEnum v = .ok spec)
    (h : Resolve.SharedEnumOf place k spec e)
    (hpick : pick (entries v) = kept (entries v)) : EnumAs pick k v e := by
  refine ⟨h.name, h.shared, ?_⟩
  rw [hpick]
  exact entries_as (readSharedEnum_ok hv) h.entries

theorem register_as {context : Resolve.Context} (henums : SharedEnums context.enums)
    {spec : RegisterSpec} {r : Register} (hv : readEntry v = .ok (.register spec))
    (h : (Resolve.register context place k spec).result = .ok r)
    (hpick : ∀ t ∈ fieldTables (fields v), pick t = kept t) : RegisterAs pick k v r := by
  have h := Resolve.register_ok h
  obtain ⟨access, -, hfields⟩ := h.form.fields
  exact ⟨h.name, ⟨spec, hv, h.address⟩, fields_as henums (readEntry_fields hv) hfields hpick⟩

section Built

variable {l : Listing} {m : RegisterMap} {blocks : Named BlockTemplate}
  {parts : List (List Resolve.Addition)} (hm : l.Resolved m blocks parts)
include hm

theorem hasInstance_of_instantiates {b i : String} {start : Word} (hi : l.Instantiates b i start) :
    m.HasInstance b i start := by
  obtain ⟨bare, hbare, -⟩ := hm.made.known b i start (hm.instanceOf_mem_iff.2 hi)
  obtain ⟨block, hblock, -⟩ := hm.get?_blocks_iff.2 ⟨bare, hbare, rfl⟩
  have hstart := (hm.instance_iff hblock).2 hi
  refine ⟨block, hblock, hstart, fun k t ht => ?_⟩
  have hstamped := hm.get?_stamped hblock hstart ht
  rwa [hm.template_name hblock ht] at hstamped

theorem entry_in (henums : SharedEnums m.enums) {e : Entry} (hv : readEntry v = .ok e)
    (he : l.registers.get? k = some e) (hfields : ∀ t ∈ fieldTables (fields v), pick t = kept t)
    (hstarts : pick (starts v) = kept (starts v)) : EntryIn pick m k v := by
  obtain ⟨added, -, hadds⟩ :=
    Table.exists_of_forall₂_left hm.added (Table.mem_entries_iff.2 he)
  cases e with
  | register spec =>
    obtain ⟨r, hr, rfl⟩ := hadds
    obtain ⟨hk, horigin⟩ := hm.plain_iff.2 ⟨spec, he, hr⟩
    exact .register r hk horigin (register_as henums hv hr hfields)
  | block use =>
    obtain ⟨named, hnamed, rfl⟩ := hadds
    have instantiates {i : String} {start : Word} (h : use.Asks k i start) :
        m.HasInstance use.block i start :=
      hasInstance_of_instantiates hm ⟨k, use, he, rfl, h⟩
    cases hstart : use.start with
    | single start =>
      exact .single use hv start hstart (instantiates (by simp [BlockUse.Asks, hstart]))
    | byId addresses =>
      refine .byId use hv addresses hstart fun p hp => ?_
      rw [hstarts] at hp
      obtain ⟨start, hid, hw⟩ := (readEntry_ids hv).has p hp
      rw [Entry.ids, hstart] at hid
      obtain ⟨i, hi⟩ := Resolve.exists_instanceNamed hnamed hstart hid
      refine ⟨i, start, hw, hi, instantiates ?_⟩
      rw [BlockUse.Asks, hstart]
      exact ⟨p.1, hid, hi⟩

theorem blocks_as (henums : SharedEnums m.enums)
    (hps : FilledBy (fun _ v b => readBlock v = .ok b) (kept ps) l.blocks)
    (hpick : ∀ p ∈ ps, pick (templates p.2) = kept (templates p.2) ∧
      ∀ q ∈ templates p.2, ∀ t ∈ fieldTables (templateFields q.2), pick t = kept t) :
    FilledBy (BlockAs pick) (kept ps) m.blocks := by
  have hbare : FilledBy (BlockAs pick) (kept ps) blocks :=
    hps.trans hm.templates fun p hp spec b hv hb =>
      have hp := hpick p (Table.mem_of_mem_kept hp)
      block_as henums hv hb hp.1 hp.2
  -- The blocks of the map have the names and the registers of those without instances.
  have instances {k : String} {v : Node} {b : BlockTemplate}
      (h : BlockAs pick k v { b with instances := .empty }) : BlockAs pick k v b :=
    ⟨h.name, h.registers⟩
  constructor
  · intro p hp
    obtain ⟨bare, hget, hb⟩ := hbare.has p hp
    obtain ⟨block, hblock, -⟩ := hm.get?_blocks_iff.2 ⟨bare, hget, rfl⟩
    cases hget.symm.trans (hm.get?_block hblock)
    exact ⟨block, hblock, instances hb⟩
  · intro k b hb
    obtain ⟨v, hv, hbare⟩ := hbare.only k _ (hm.get?_block hb)
    exact ⟨v, hv, instances hbare⟩

end Built

theorem asks_of_use {use : BlockUse} {i : String} {start : Word}
    (hv : readEntry v = .ok (.block use))
    (h : use.Asks k i start) (hstarts : pick (starts v) = kept (starts v)) :
    Asks pick k v use.block i start := by
  unfold BlockUse.Asks at h
  split at h
  next hstart =>
    obtain ⟨rfl, rfl⟩ := h
    exact .single use hv rfl hstart rfl
  next addresses hstart =>
    obtain ⟨id, hid, hi⟩ := h
    have hids := (readEntry_ids hv).only id start
    rw [Entry.ids, hstart] at hids
    obtain ⟨w, hw, hread⟩ := hids hid
    exact .byId use hv rfl id w (hstarts ▸ hw) hread hi

theorem represented {l : Listing} {m : RegisterMap} (hn : ofNode n = .ok l)
    (hm : l.resolve.result = .ok m) (hpick : ∀ t ∈ tables n, pick t = kept t) :
    Represented pick n m := by
  obtain ⟨-, henums⟩ := l.enums_of_resolve hm
  have hpointwise := l.enums_pointwise hm
  obtain ⟨blocks, parts, hm⟩ := l.resolved_of_resolve hm
  obtain ⟨⟨hregisters, hshared, hblocks⟩, hentry, henum, hblock⟩ := forall_tables_iff.1 hpick
  have hread := ofNode_registers hn
  rw [← hregisters] at hread
  constructor
  · intro p hp
    obtain ⟨e, he, hv⟩ := hread.has p hp
    obtain ⟨hstarts, hfields⟩ := hentry p (Table.mem_of_mem_kept (hregisters ▸ hp))
    exact entry_in hm henums hv he hfields hstarts
  · rw [hshared]
    exact (ofNode_enums hn).trans hpointwise fun p hp spec e hv he =>
      enum_as hv he (henum p (Table.mem_of_mem_kept hp))
  · rw [hblocks]
    exact blocks_as hm henums (ofNode_blocks hn) hblock
  · intro k r hk horigin
    obtain ⟨spec, he, hr⟩ := hm.plain_iff.1 ⟨hk, horigin⟩
    obtain ⟨v, hv, hread⟩ := hread.only k _ he
    have hfields := (hentry (k, v) (Table.mem_of_mem_kept (hregisters ▸ hv))).2
    exact ⟨v, hv, register_as henums hread hr hfields⟩
  · intro b block i start hb hi
    obtain ⟨k, use, he, rfl, hasks⟩ := (hm.instance_iff hb).1 hi
    obtain ⟨v, hv, hread⟩ := hread.only k _ he
    have hstarts := (hentry (k, v) (Table.mem_of_mem_kept (hregisters ▸ hv))).1
    exact ⟨k, v, hv, asks_of_use hread hasks hstarts⟩

/-- What becomes of a document in the map that is built from it. -/
structure Conversion (n : Node) (m : RegisterMap) : Prop where
  sections : ∀ i, (shape.given i n).length ≤ 1
  /-- The pairs that are not written over are in the map, and nothing else is. -/
  kept : Represented kept n m
  /-- If no table has a name twice, everything that is written is in the map. -/
  complete : (∀ t ∈ tables n, (t.map Prod.fst).Nodup) → Represented id n m

end Written

open Written

variable {f : Format} {place text : String} {l : Listing} {m : RegisterMap}

theorem ofText_ok_iff : ofText place f text = .ok l ↔
    ∃ n, f.read? outline text = some n ∧ ofNode n = .ok l := by
  have hread : (∃ n, f.read? outline text = some n ∧ ofNode n = .ok l) ↔
      (f.read? outline text).bind (fun n => (ofNode n).toOption) = some l := by
    simp only [Option.bind_eq_some_iff, Success.toOption_eq_some_iff]
  rw [hread, ofText]
  split
  next l' h => simp [h]
  next h => simp [h]

theorem conversion_of_text (hl : ofText place f text = .ok l) (hm : l.build.result = .ok m) :
    ∃ n, f.read? outline text = some n ∧ Conversion n m := by
  have hresolve := (Listing.build_ok_iff.1 hm).1
  obtain ⟨n, hn, hread⟩ := ofText_ok_iff.1 hl
  refine ⟨n, hn, Shape.length_given_le hread, represented hread hresolve fun _ _ => rfl,
    fun hnodup => ?_⟩
  exact represented hread hresolve fun t ht => (Table.kept_of_nodup (hnodup t ht)).symm

def plainText : String :=
  "map_name: chip\ndefault_register_bitwidth: 8\n" ++
  "registers: \x7bCTRL: \x7badr: 16, " ++
  "fields: \x7bEN: \x7bbits: 0, enum: \x7bON: \x7bval: 1\x7d\x7d\x7d\x7d\x7d\x7d\n"

theorem conversion_of_plain : ∃ n l m,
    Format.hjson.read? outline plainText = some n ∧
    ofText "chip.hjson" .hjson plainText = .ok l ∧ l.build.result = .ok m ∧
    m.registers.keys = ["CTRL"] ∧ Represented id n m := by
  have hparts : (Format.hjson.read? outline plainText).map (fun n =>
      (decide (∀ t ∈ tables n, (t.map Prod.fst).Nodup), (ofNode n).toOption.bind fun l =>
        l.build.result.toOption.map (·.registers.keys))) = some (true, some ["CTRL"]) := by
    decide +kernel
  obtain ⟨n, hn, hparts⟩ := Option.map_eq_some_iff.1 hparts
  obtain ⟨hnodup, hbuild⟩ := Prod.ext_iff.1 hparts
  obtain ⟨l, hl, hbuild⟩ := Option.bind_eq_some_iff.1 hbuild
  obtain ⟨m, hm, hkeys⟩ := Success.exists_ok hbuild
  have hl : ofText "chip.hjson" .hjson plainText = .ok l :=
    ofText_ok_iff.2 ⟨n, hn, Success.toOption_eq_some_iff.1 hl⟩
  obtain ⟨n', hn', hconversion⟩ := conversion_of_text hl hm
  cases hn.symm.trans hn'
  exact ⟨n, l, m, hn, hl, hm, hkeys, hconversion.complete (of_decide_eq_true hnodup)⟩

def repeatedText : String :=
  "map_name: chip\ndefault_register_bitwidth: 8\n" ++
  "registers: \x7bCTRL: \x7badr: 16\x7d, CTRL: \x7badr: 20\x7d\x7d\n"

theorem repeated_name_loses_address : ∃ n l m,
    Format.hjson.read? outline repeatedText = some n ∧
    (Written.registers n).map (fun p => (p.1, (readEntry p.2).toOption.map Entry.address?)) =
      [("CTRL", some (some 16#64)), ("CTRL", some (some 20#64))] ∧
    ofText "chip.hjson" .hjson repeatedText = .ok l ∧ l.build.result = .ok m ∧
    m.registers.values.map Register.address = [some 20#64] ∧ ¬Represented id n m := by
  have hparts : (Format.hjson.read? outline repeatedText).map (fun n =>
      ((Written.registers n).map (fun p => (p.1, (readEntry p.2).toOption.map Entry.address?)),
        (ofNode n).toOption.bind fun l => l.build.result.toOption.map fun m =>
          m.registers.values.map Register.address)) =
      some ([("CTRL", some (some 16#64)), ("CTRL", some (some 20#64))], some [some 20#64]) := by
    decide +kernel
  obtain ⟨n, hn, hparts⟩ := Option.map_eq_some_iff.1 hparts
  obtain ⟨hwritten, hbuild⟩ := Prod.ext_iff.1 hparts
  obtain ⟨l, hl, hbuild⟩ := Option.bind_eq_some_iff.1 hbuild
  obtain ⟨m, hm, haddresses⟩ := Success.exists_ok hbuild
  have hl : ofText "chip.hjson" .hjson repeatedText = .ok l :=
    ofText_ok_iff.2 ⟨n, hn, Success.toOption_eq_some_iff.1 hl⟩
  refine ⟨n, l, m, hn, hwritten, hl, hm, haddresses, fun hrep => ?_⟩
  obtain ⟨p, ps, hps, hp, -⟩ := List.map_eq_cons_iff.1 hwritten
  obtain ⟨e, he, hwant⟩ := Success.exists_ok (congrArg Prod.snd hp)
  have hin := hrep.registers p (hps ▸ List.mem_cons_self)
  cases hin with
  | register r hr horigin has =>
    obtain ⟨spec, hspec, haddress⟩ := has.address
    cases he.symm.trans hspec
    have hmem : r.address ∈ m.registers.values.map Register.address :=
      List.mem_map_of_mem (Table.mem_values_iff.2 ⟨_, hr⟩)
    rw [haddresses, List.mem_singleton, haddress] at hmem
    cases hmem.symm.trans hwant
  | single use hv =>
    cases he.symm.trans hv
    cases hwant
  | byId use hv =>
    cases he.symm.trans hv
    cases hwant

end Listing

end RegAtlas
