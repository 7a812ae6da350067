import RegAtlas.Build
import RegAtlas.Proofs.BitSet.Mask
import RegAtlas.Proofs.Table.Pointwise

namespace RegAtlas

def IsLetter (c : Char) : Prop := 'a' ≤ c ∧ c ≤ 'z' ∨ 'A' ≤ c ∧ c ≤ 'Z'

def IsDigit (c : Char) : Prop := '0' ≤ c ∧ c ≤ '9'

/-- A letter or underscore, then letters, digits and underscores, all of them ASCII. -/
def Identifier (name : String) : Prop :=
  ∃ c cs, name.toList = c :: cs ∧ (IsLetter c ∨ c = '_') ∧
    ∀ d ∈ cs, IsLetter d ∨ IsDigit d ∨ d = '_'

namespace Resolve

open Listing (AccessSpec AlwaysWriteSpec BitSpec BlockSpec EntrySpec EnumSpec FieldSpec RegisterSpec
  SharedEnumSpec TemplateSpec)

variable {α β : Type} {place : Breadcrumb} {name : String} {context : Context}
  {shared : Named Enumeration}

theorem isAlpha_iff {c : Char} : c.isAlpha = true ↔ IsLetter c := by
  have halpha : c.isAlpha =
      (decide ('A' ≤ c ∧ c ≤ 'Z') || decide ('a' ≤ c) && decide (c ≤ 'z')) := rfl
  simp only [halpha, IsLetter, Bool.or_eq_true, Bool.and_eq_true, decide_eq_true_eq]
  exact or_comm

theorem isNameStart_iff {c : Char} : isNameStart c = true ↔ IsLetter c ∨ c = '_' := by
  rw [isNameStart, Bool.or_eq_true, isAlpha_iff, beq_iff_eq]

theorem isDigit_iff {c : Char} : c.isDigit = true ↔ IsDigit c := by
  simp only [Char.isDigit, IsDigit, Char.le_def, Bool.and_eq_true, decide_eq_true_eq, ge_iff_le]

theorem isNameRest_iff {c : Char} :
    isNameRest c = true ↔ IsLetter c ∨ IsDigit c ∨ c = '_' := by
  rw [isNameRest, Char.isAlphanum, Bool.or_eq_true, Bool.or_eq_true, isAlpha_iff, isDigit_iff,
    beq_iff_eq, or_assoc]

theorem isIdentifier_iff : isIdentifier name = true ↔ Identifier name := by
  unfold isIdentifier Identifier
  cases name.toList with
  | nil => simp
  | cons c cs => simp [isNameStart_iff, isNameRest_iff]

theorem checkName_ok {u : Unit} (h : checkName name place = .ok u) : Identifier name := by
  unfold checkName at h
  split at h
  next hname => exact isIdentifier_iff.1 hname
  next => cases h

theorem width_ok {given default : Option Nat} {w : Nat} (h : width given default place = .ok w) :
    1 ≤ w ∧ w ≤ 64 := by
  unfold width at h
  split at h
  next =>
    unfold checkWidth at h
    split at h
    next hw =>
      cases h
      exact hw
    next => cases h
  next => cases h

@[simp] theorem refuse_ne_ok {cause : Cause} {a : α} : refuse place cause ≠ .ok a := nofun

theorem table_ok {f : String → α → Build β} {t : Named α} {u : Named β}
    (h : (table f t).result = .ok u) :
    Table.Pointwise (fun k a b => (f k a).result = .ok b) t.entries u.entries := by
  simp only [table, Logged.result_bind, Logged.result_mapM, Logged.result_pure,
    Success.bind_eq_ok, Success.mapM_eq_ok, Except.ok.injEq] at h
  obtain ⟨es, hes, rfl⟩ := h
  have hpoint : Table.Pointwise (fun k a b => (f k a).result = .ok b) t.entries es := by
    apply hes.imp
    intro e e' he
    obtain ⟨b, hb, rfl⟩ := he
    exact ⟨rfl, hb⟩
  rwa [hpoint.entries_ofList]

theorem firstRepeated?_eq_none_iff {seen bs : List Nat} :
    firstRepeated? seen bs = none ↔ bs.Nodup ∧ ∀ b ∈ bs, b ∉ seen := by
  induction bs generalizing seen with
  | nil => simp [firstRepeated?]
  | cons b bs ih =>
    rw [firstRepeated?, List.nodup_cons, List.forall_mem_cons]
    by_cases hb : b ∈ seen
    · simp [hb]
    · rw [if_neg (by simpa using hb), ih]
      simp only [List.mem_cons, not_or]
      constructor
      · rintro ⟨hnodup, hfresh⟩
        exact ⟨⟨fun hmem => (hfresh b hmem).1 rfl, hnodup⟩, hb, fun d hd => (hfresh d hd).2⟩
      · rintro ⟨⟨hmem, hnodup⟩, -, hfresh⟩
        exact ⟨hnodup, fun d hd => ⟨fun h => hmem (h ▸ hd), hfresh d hd⟩⟩

theorem positions_ok_iff {spec : BitSpec} {ps : List Nat} : positions spec place = .ok ps ↔
    ∃ cs, components place spec = .ok cs ∧ ps = cs.flatten ∧ ps.Nodup ∧ ps ≠ [] := by
  refine Success.bind_eq_ok.trans (exists_congr fun cs => and_congr_right fun _ => ?_)
  dsimp only
  cases hfirst : firstRepeated? [] cs.flatten with
  | some b =>
    refine ⟨nofun, ?_⟩
    rintro ⟨rfl, hnodup, -⟩
    rw [firstRepeated?_eq_none_iff.2 ⟨hnodup, fun _ _ => List.not_mem_nil⟩] at hfirst
    cases hfirst
  | none =>
    have hnodup := (firstRepeated?_eq_none_iff.1 hfirst).1
    dsimp only
    split
    next hempty =>
      refine ⟨nofun, ?_⟩
      rintro ⟨rfl, -, hne⟩
      exact absurd (List.isEmpty_iff.1 hempty) hne
    next hne =>
      constructor
      · intro h
        cases h
        exact ⟨rfl, hnodup, by simpa using hne⟩
      · rintro ⟨rfl, -, -⟩
        rfl

theorem bits_ok_iff {spec : BitSpec} {s : BitSet} : (bits spec place).result = .ok s ↔
    ∃ ps, positions spec (place ++ ["bits"]) = .ok ps ∧ (∀ p ∈ ps, p < wordSize) ∧
      s = .ofPositions ps := by
  simp only [bits, Logged.result_bind, Logged.result_liftM, Logged.result_report,
    Success.bind_eq_ok, atPlace, Success.mapError_eq_ok, BitSet.ofList?_eq_ok_iff, true_and,
    exists_const]

theorem bits_ok {spec : BitSpec} {s : BitSet} (h : (bits spec place).result = .ok s) :
    (∃ i, i ∈ s) ∧ ∀ i ∈ s, i < wordSize := by
  obtain ⟨ps, hps, hlt, rfl⟩ := bits_ok_iff.1 h
  obtain ⟨-, -, -, -, hne⟩ := positions_ok_iff.1 hps
  obtain ⟨p, hp⟩ := List.exists_mem_of_ne_nil ps hne
  exact ⟨⟨p, BitSet.mem_ofPositions.2 hp⟩, fun i hi => hlt i (BitSet.mem_ofPositions.1 hi)⟩

theorem alwaysWrite_some_ok_iff {spec : AlwaysWriteSpec} {found : Option AlwaysWrite} :
    (alwaysWrite (some spec) place).result = .ok found ↔
      ∃ s, (bits spec.bits (place ++ ["always_write"])).result = .ok s ∧
        ∃ v, writtenValue (place ++ ["always_write"]) spec.bits spec.value = .ok v ∧
          some ⟨s, v⟩ = found := by
  simp only [alwaysWrite, Logged.result_bind, Logged.result_liftM, Logged.result_pure,
    Success.bind_eq_ok, Except.ok.injEq]

/-- The values differ from each other and from those that have been seen. -/
def Fresh (seen : List (Word × String)) (vs : List Word) : Prop :=
  vs.Nodup ∧ ∀ v ∈ vs, v ∉ seen.map Prod.fst

theorem Fresh.cons {seen : List (Word × String)} {v : Word} {n : String} {vs : List Word}
    (hseen : seen.find? (·.1 == v) = none) (h : Fresh ((v, n) :: seen) vs) :
    Fresh seen (v :: vs) := by
  obtain ⟨hnodup, hfresh⟩ := h
  rw [List.map_cons] at hfresh
  refine ⟨List.nodup_cons.2 ⟨fun hv => hfresh v hv List.mem_cons_self, hnodup⟩, fun w hw => ?_⟩
  rcases List.mem_cons.1 hw with rfl | hw
  · intro hmem
    obtain ⟨s, hs, rfl⟩ := List.mem_map.1 hmem
    simpa using List.find?_eq_none.1 hseen s hs
  · exact fun hmem => hfresh w hw (List.mem_cons_of_mem _ hmem)

structure EntryOf (place : Breadcrumb) (k : String) (spec : EntrySpec) (e : EnumEntry) : Prop where
  identifier : Identifier k
  name : e.name = k
  value : e.value = spec.value
  docs : Resolve.docs spec.brief spec.doc (place ++ [k]) = .ok e.docs

theorem entryList_ok {specs : List (String × EntrySpec)} {seen : List (Word × String)}
    {es : List (String × EnumEntry)} (h : entryList place specs seen = .ok es) :
    Table.Pointwise (EntryOf place) specs es ∧ Fresh seen (specs.map (·.2.value)) := by
  induction specs generalizing seen es with
  | nil =>
    cases h
    exact ⟨.nil, List.nodup_nil, nofun⟩
  | cons e specs ih =>
    obtain ⟨_, hname, h⟩ := Success.bind_eq_ok.1 h
    split at h
    next => cases h
    next hseen =>
      obtain ⟨docs, hdocs, h⟩ := Success.bind_eq_ok.1 h
      obtain ⟨es', hes', h⟩ := Success.bind_eq_ok.1 h
      cases h
      obtain ⟨hpoint, hfresh⟩ := ih hes'
      exact ⟨.cons ⟨rfl, checkName_ok hname, rfl, rfl, hdocs⟩ hpoint, hfresh.cons hseen⟩

theorem enumEntries_ok {specs : Named EntrySpec} {es : Named EnumEntry}
    (h : entries specs place = .ok es) :
    Table.Pointwise (EntryOf place) specs.entries es.entries ∧
      (specs.entries.map (·.2.value)).Nodup ∧ specs.entries ≠ [] := by
  unfold entries at h
  split at h
  next => cases h
  next hspecs =>
    obtain ⟨list, hlist, rfl⟩ := Success.map_eq_ok.1 h
    obtain ⟨hpoint, hnodup, -⟩ := entryList_ok hlist
    rw [hpoint.entries_ofList]
    exact ⟨hpoint, hnodup, by simpa [Table.isEmpty] using hspecs⟩

structure SharedEnumOf (place : Breadcrumb) (k : String) (spec : SharedEnumSpec)
    (e : Enumeration) : Prop where
  identifier : Identifier k
  name : e.name = k
  shared : e.shared = true
  docs : Resolve.docs spec.brief spec.doc (place ++ [k]) = .ok e.docs
  entries : Resolve.entries spec.entries (place ++ [k]) = .ok e.entries

theorem sharedEnum_ok {spec : SharedEnumSpec} {e : Enumeration}
    (h : sharedEnum place name spec = .ok e) : SharedEnumOf place name spec e := by
  obtain ⟨_, hname, h⟩ := Success.bind_eq_ok.1 h
  obtain ⟨docs, hdocs, h⟩ := Success.bind_eq_ok.1 h
  obtain ⟨es, hes, h⟩ := Success.bind_eq_ok.1 h
  cases h
  exact ⟨checkName_ok hname, rfl, rfl, hdocs, hes⟩

/-- The enumeration of the field `k`: none, one that is shared, or one of its own. -/
inductive FieldEnumOf (shared : Named Enumeration) (k : String) (docs : Docs) (place : Breadcrumb) :
    Option EnumSpec → Option Enumeration → Prop
  | none : FieldEnumOf shared k docs place none none
  | shared {n : String} {e : Enumeration} (h : shared.get? n = some e) :
      FieldEnumOf shared k docs place (some (.shared n)) (some e)
  | own {specs : Named EntrySpec} {es : Named EnumEntry}
      (h : entries specs (place ++ ["enum"]) = .ok es) :
      FieldEnumOf shared k docs place (some (.own specs)) (some ⟨k, false, docs, es⟩)

theorem fieldEnum_ok {docs : Docs} {spec : Option EnumSpec} {e : Option Enumeration}
    (h : fieldEnum shared name docs place spec = .ok e) :
    FieldEnumOf shared name docs place spec e := by
  unfold fieldEnum at h
  split at h
  next =>
    cases h
    exact .none
  next n =>
    split at h
    next e' he' =>
      cases h
      exact .shared he'
    next => cases h
  next specs =>
    obtain ⟨es, hes, h⟩ := Success.bind_eq_ok.1 h
    cases h
    exact .own hes

/-- The field `k`, resolved from its specification. -/
structure FieldOf (shared : Named Enumeration) (inherited : List Access) (place : Breadcrumb)
    (k : String) (spec : FieldSpec) (f : Field) : Prop where
  identifier : Identifier k
  name : f.name = k
  access : ∃ own, Resolve.access spec.access (place ++ [k]) = .ok own ∧
    f.access = if own.isEmpty then inherited else own
  docs : Resolve.docs spec.brief spec.doc (place ++ [k]) = .ok f.docs
  enumeration : FieldEnumOf shared k f.docs (place ++ [k]) spec.enumeration f.enumeration
  bits : (Resolve.bits spec.bits (place ++ [k])).result = .ok f.bits

theorem field_ok {inherited : List Access} {spec : FieldSpec} {f : Field}
    (h : (field shared inherited place name spec).result = .ok f) :
    FieldOf shared inherited place name spec f := by
  simp only [field, Logged.result_bind, Logged.result_liftM, Logged.result_pure,
    Success.bind_eq_ok, Except.ok.injEq] at h
  obtain ⟨_, hname, own, hown, docs, hdocs, enumeration, he, s, hs, rfl⟩ := h
  exact ⟨checkName_ok hname, rfl, ⟨own, hown, rfl⟩, hdocs, fieldEnum_ok he, hs⟩

theorem fields_ok {inherited : List Access} {specs : Named FieldSpec} {fs : Named Field}
    (h : (fields shared inherited specs place).result = .ok fs) :
    Table.Pointwise (FieldOf shared inherited (place ++ ["fields"])) specs.entries fs.entries :=
  (table_ok h).imp fun _ _ hf => ⟨hf.1, field_ok hf.2⟩

/-- What a register and a template register have in common, resolved from its specification. -/
structure FormOf (context : Context) (place : Breadcrumb) (accessSpec : Option AccessSpec)
    (given : Option Nat) (specs : Named FieldSpec) (awSpec : Option AlwaysWriteSpec)
    (f : RegisterForm) : Prop where
  width : Resolve.width given context.defaultWidth place = .ok f.width
  fields : ∃ access, Resolve.access accessSpec place = .ok access ∧
    Table.Pointwise (FieldOf context.enums access (place ++ ["fields"])) specs.entries
      f.fields.entries
  alwaysWrite : (Resolve.alwaysWrite awSpec place).result = .ok f.alwaysWrite

def Formed (context : Context) (f : RegisterForm) : Prop :=
  ∃ place access given specs aw, FormOf context place access given specs aw f

theorem Formed.exists_field {f : RegisterForm} {k : String} {a : Field} (h : Formed context f)
    (hk : f.fields.get? k = some a) :
    ∃ access place spec, FieldOf context.enums access place k spec a := by
  obtain ⟨place, _, _, specs, _, hform⟩ := h
  obtain ⟨access, -, hfields⟩ := hform.fields
  obtain ⟨spec, -, hspec⟩ := hfields.exists_left hk
  exact ⟨access, _, spec, hspec⟩

structure RegisterOf (context : Context) (place : Breadcrumb) (k : String) (spec : RegisterSpec)
    (r : Register) : Prop where
  name : r.name = k
  address : r.address = spec.address
  origin : r.origin = none
  form : FormOf context place spec.access spec.width spec.fields spec.alwaysWrite r.form
  resetValue : r.resetValue = spec.resetValue
  docs : Resolve.docs spec.brief spec.doc place = .ok r.docs

theorem RegisterOf.formed {spec : RegisterSpec} {r : Register}
    (h : RegisterOf context place name spec r) : Formed context r.form :=
  ⟨_, _, _, _, _, h.form⟩

theorem register_ok {spec : RegisterSpec} {r : Register}
    (h : (register context place name spec).result = .ok r) :
    RegisterOf context place name spec r := by
  simp only [register, Logged.result_bind, Logged.result_liftM, Logged.result_pure,
    Success.bind_eq_ok, Except.ok.injEq] at h
  obtain ⟨access, haccess, width, hwidth, fs, hfs, aw, haw, docs, hdocs, rfl⟩ := h
  exact ⟨rfl, rfl, rfl, ⟨hwidth, ⟨access, haccess, fields_ok hfs⟩, haw⟩, rfl, hdocs⟩

structure TemplateOf (context : Context) (place : Breadcrumb) (k : String) (spec : TemplateSpec)
    (t : TemplateRegister) : Prop where
  name : t.name = k
  offset : t.offset = spec.offset
  form : FormOf context place spec.access spec.width spec.fields spec.alwaysWrite t.form
  resetValue : t.resetValue = spec.resetValue
  docs : Resolve.docs spec.brief spec.doc place = .ok t.docs

theorem TemplateOf.formed {spec : TemplateSpec} {t : TemplateRegister}
    (h : TemplateOf context place name spec t) : Formed context t.form :=
  ⟨_, _, _, _, _, h.form⟩

theorem template_ok {spec : TemplateSpec} {t : TemplateRegister}
    (h : (template context place name spec).result = .ok t) :
    TemplateOf context place name spec t := by
  simp only [template, Logged.result_bind, Logged.result_liftM, Logged.result_pure,
    Success.bind_eq_ok, Except.ok.injEq] at h
  obtain ⟨access, haccess, width, hwidth, fs, hfs, aw, haw, docs, hdocs, rfl⟩ := h
  exact ⟨rfl, rfl, ⟨hwidth, ⟨access, haccess, fields_ok hfs⟩, haw⟩, rfl, hdocs⟩

theorem templateList_ok {specs : List (String × TemplateSpec)} {seen : List (Word × String)}
    {ts : List (String × TemplateRegister)}
    (h : (templateList context place specs seen).result = .ok ts) :
    Table.Pointwise (fun k spec t =>
        Identifier k ∧ TemplateOf context (place ++ [k]) k spec t) specs ts ∧
      Fresh seen (specs.map (·.2.offset)) := by
  induction specs generalizing seen ts with
  | nil =>
    cases h
    exact ⟨.nil, List.nodup_nil, nofun⟩
  | cons e specs ih =>
    simp only [templateList, Logged.result_bind, Logged.result_liftM, Success.bind_eq_ok] at h
    obtain ⟨_, hname, h⟩ := h
    split at h
    next => cases h
    next hseen =>
      simp only [Logged.result_bind, Logged.result_pure, Success.bind_eq_ok,
        Except.ok.injEq] at h
      obtain ⟨t, ht, ts, hts, rfl⟩ := h
      obtain ⟨hpoint, hfresh⟩ := ih hts
      exact ⟨.cons ⟨rfl, checkName_ok hname, template_ok ht⟩ hpoint, hfresh.cons hseen⟩

structure BlockOf (context : Context) (place : Breadcrumb) (k : String) (spec : BlockSpec)
    (b : BlockTemplate) : Prop where
  identifier : Identifier k
  name : b.name = k
  docs : Resolve.docs spec.brief spec.doc (place ++ [k]) = .ok b.docs
  registers : Table.Pointwise (fun n tspec t => Identifier n ∧
    TemplateOf context (place ++ [k] ++ ["registers"] ++ [n]) n tspec t)
      spec.registers.entries b.registers.entries
  offsets : (spec.registers.entries.map (·.2.offset)).Nodup
  instances : b.instances = .empty

theorem block_ok {spec : BlockSpec} {b : BlockTemplate}
    (h : (block context place name spec).result = .ok b) : BlockOf context place name spec b := by
  simp only [block, Logged.result_bind, Logged.result_liftM, Logged.result_report,
    Logged.result_pure, Success.bind_eq_ok, Except.ok.injEq] at h
  obtain ⟨_, hname, docs, hdocs, ts, hts, -, -, rfl⟩ := h
  obtain ⟨hpoint, hnodup, -⟩ := templateList_ok hts
  refine ⟨checkName_ok hname, rfl, hdocs, ?_, hnodup, rfl⟩
  rwa [hpoint.entries_ofList]

end Resolve

namespace Listing

/-- The stages in which a listing is resolved to a map. `blocks` are the block templates before the
run over the registers section. -/
structure Stages (l : Listing) (m : RegisterMap) (blocks : Named BlockTemplate) : Prop where
  checked : Resolve.checkName l.name [l.name, "map_name"] = .ok ()
  docs : Resolve.docs l.brief l.doc [l.name] = .ok m.docs
  width : (l.defaultWidth.mapM fun w =>
    Resolve.checkWidth w [l.name, "default_register_bitwidth"]) = .ok m.defaultWidth
  enums : (Resolve.table (fun k spec => liftM (Resolve.sharedEnum [l.name, "enums"] k spec))
    l.enums).result = .ok m.enums
  templates : (Resolve.table (Resolve.block ⟨l.defaultWidth, m.enums⟩
    [l.name, "register_block_templates"]) l.blocks).result = .ok blocks
  run : (l.registers.entries.foldlM (Resolve.entry ⟨l.defaultWidth, m.enums⟩
    [l.name, "registers"]) ⟨blocks, .empty⟩).result = .ok ⟨m.blocks, m.registers⟩
  name : m.name = l.name
  author : m.author = l.author
  note : m.note = l.note

theorem resolve_ok_iff {l : Listing} {m : RegisterMap} :
    l.resolve.result = .ok m ↔ ∃ blocks, l.Stages m blocks := by
  simp only [resolve, Logged.result_bind, Logged.result_liftM, Logged.result_report,
    Logged.result_pure, Success.bind_eq_ok, Except.ok.injEq, true_and, exists_const]
  constructor
  · rintro ⟨_, hname, docs, hdocs, width, hwidth, enums, henums, blocks, hblocks, a, ha, rfl⟩
    exact ⟨blocks, hname, hdocs, hwidth, henums, hblocks, ha, rfl, rfl, rfl⟩
  · rintro ⟨blocks, hname, hdocs, hwidth, henums, hblocks, ha, hn, hauthor, hnote⟩
    obtain ⟨name, docs, author, note, width, registers, enums, bs⟩ := m
    cases hn
    cases hauthor
    cases hnote
    exact ⟨(), hname, docs, hdocs, width, hwidth, enums, henums, blocks, hblocks, _, ha, rfl⟩

end Listing

end RegAtlas
