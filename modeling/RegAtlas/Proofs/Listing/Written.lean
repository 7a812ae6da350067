import RegAtlas.Proofs.Listing.EntryKeys
import RegAtlas.Proofs.Listing.Reading

namespace RegAtlas.Listing

open Table (FilledBy kept)

namespace Written

def registers (n : Node) : List (String × Node) := shape.table 6 n

def enums (n : Node) : List (String × Node) := shape.table 7 n

def blocks (n : Node) : List (String × Node) := shape.table 8 n

def starts (entry : Node) : List (String × Node) := rawEntryShape.typedTable 1 entry

def fields (entry : Node) : List (String × Node) := rawEntryShape.table 3 entry

def templates (block : Node) : List (String × Node) := blockShape.table 0 block

def templateFields (template : Node) : List (String × Node) := templateShape.table 1 template

def entries (sharedEnum : Node) : List (String × Node) := sharedEnumShape.table 0 sharedEnum

def ownEntries (field : Node) : List (String × Node) := fieldShape.typedTable 4 field

def fieldTables (fields : List (String × Node)) : List (List (String × Node)) :=
  fields :: fields.map fun f => ownEntries f.2

/-- Every table in which names are given something. -/
def tables (n : Node) : List (List (String × Node)) :=
  [registers n, enums n, blocks n] ++
  (registers n).flatMap (fun e => starts e.2 :: fieldTables (fields e.2)) ++
  (enums n).map (fun e => entries e.2) ++
  (blocks n).flatMap fun b =>
    templates b.2 :: (templates b.2).flatMap fun t => fieldTables (templateFields t.2)

theorem forall_tables_iff {P : List (String × Node) → Prop} {n : Node} :
    (∀ t ∈ tables n, P t) ↔ (P (registers n) ∧ P (enums n) ∧ P (blocks n)) ∧
      (∀ e ∈ registers n, P (starts e.2) ∧ ∀ t ∈ fieldTables (fields e.2), P t) ∧
      (∀ e ∈ enums n, P (entries e.2)) ∧
      ∀ b ∈ blocks n, P (templates b.2) ∧
        ∀ t ∈ templates b.2, ∀ u ∈ fieldTables (templateFields t.2), P u := by
  simp only [tables, List.forall_mem_append, List.forall_mem_flatMap, List.forall_mem_cons,
    List.forall_mem_map, and_assoc, List.not_mem_nil, IsEmpty.forall_iff, implies_true, true_and]

end Written

def StartSpec.ids : StartSpec → Named Word
  | single _ => .empty
  | byId addresses => addresses

def EnumSpec.ownEntries : EnumSpec → Named EntrySpec
  | shared _ => .empty
  | own entries => entries

def Entry.fields : Entry → Named FieldSpec
  | register spec => spec.fields
  | block _ => .empty

def Entry.ids : Entry → Named Word
  | register _ => .empty
  | block use => use.start.ids

variable {α β : Type} {n : Node}

theorem Draft.finish_ok {ρ : Type} {key : String} {build : ρ → α → β} {d : Draft ρ α} {b : β}
    (h : d.finish key build = .ok b) : ∃ r, d.1 = some r ∧ build r d.2 = b := by
  unfold Draft.finish at h
  split at h
  next r hr => exact ⟨r, hr, Except.ok.inj h⟩
  next => cases h

section Given

variable {read : Node → Read α} {vs : List Node} {t : Named α}

theorem filledBy_of_given (h : Shape.Given (ReadAs (readTable read) id) vs .empty t) :
    FilledBy (fun _ v a => read v = .ok a) (kept (vs.flatMap pairs)) t := by
  obtain ⟨rfl, rfl⟩ | ⟨v, rfl, t', ht', rfl⟩ := h
  · exact .empty
  · rw [List.flatMap_singleton]
    exact readTable_ok ht'

theorem filledBy_of_required (h : Shape.Given (ReadAs (readTable read) some) vs none (some t)) :
    FilledBy (fun _ v a => read v = .ok a) (kept (vs.flatMap pairs)) t := by
  obtain ⟨-, ⟨⟩⟩ | ⟨v, rfl, t', ht', ⟨⟩⟩ := h
  rw [List.flatMap_singleton]
  exact readTable_ok ht'

theorem filledBy_of_optional {o : Option (Named α)}
    (h : Shape.Given (ReadAs (readOption (readTable read)) id) vs none o) :
    FilledBy (fun _ v a => read v = .ok a) (kept (vs.flatMap pairs)) (o.getD .empty) := by
  obtain ⟨rfl, rfl⟩ | ⟨v, rfl, o', hv, rfl⟩ := h
  · exact .empty
  · rw [List.flatMap_singleton]
    obtain ⟨rfl, hpairs, -⟩ | ⟨t, rfl, ht⟩ := readOption_ok hv
    · rw [hpairs]
      exact .empty
    · exact readTable_ok ht

theorem filledBy_of_typed {γ : Type} {other : Node → Read γ} {values : γ → Named α}
    (hother : ∀ v c, other v = .ok c →
      FilledBy (fun _ v a => read v = .ok a) (kept (typedPairs v)) (values c))
    {o : Option γ} (h : Shape.Given (ReadAs (readOption other) id) vs none o) :
    FilledBy (fun _ v a => read v = .ok a) (kept (vs.flatMap typedPairs))
      (o.elim .empty values) := by
  obtain ⟨rfl, rfl⟩ | ⟨v, rfl, o', hv, rfl⟩ := h
  · exact .empty
  · rw [List.flatMap_singleton]
    obtain ⟨rfl, -, hpairs⟩ | ⟨c, rfl, hc⟩ := readOption_ok hv
    · rw [hpairs]
      exact .empty
    · exact hother v c hc

theorem filledBy_of_alternatives {γ σ : Type} {name : String} {scalar : Node → Read γ}
    (f : γ → σ) (g : Named α → σ) (values : σ → Named α)
    (hscalar : ∀ v c, scalar v = .ok c → pairs v = []) (hf : ∀ c, values (f c) = .empty)
    (hg : ∀ t, values (g t) = t) {s : σ} (h : readAlternatives name (fun v =>
      (scalar v).toOption.map f <|> (readTable read v).toOption.map g) n = .ok s) :
    FilledBy (fun _ v a => read v = .ok a) (kept (typedPairs n)) (values s) := by
  obtain ⟨v, hv, h⟩ := readAlternatives_ok h
  rw [typedPairs, hv, Option.elim_some]
  cases hc : scalar v with
  | ok c =>
    rw [hc] at h
    cases h
    rw [hf, hscalar v c hc]
    exact .empty
  | error e =>
    rw [hc] at h
    obtain ⟨t, ht, rfl⟩ := Success.exists_ok h
    rw [hg]
    exact readTable_ok ht

end Given

section Record

variable {ρ γ : Type} {read : Node → Read α} {i : Nat} {key : String} {build : ρ → β → γ}
  {start : β} {c : γ}

/-- A table that a record may leave out. -/
theorem filledBy_of_rest {s : Shape (Draft ρ β)} {p : β → Named α} {q : γ → Named α}
    (hr : s.Reads i (fun d => p d.2) (ReadAs (readTable read) id))
    (h : s.read (none, start) (Draft.finish key build) n = .ok c) (hstart : p start = .empty)
    (hbuild : ∀ r b, q (build r b) = p b) :
    FilledBy (fun _ v a => read v = .ok a) (kept (s.table i n)) (q c) := by
  obtain ⟨d, hd, hgiven⟩ := hr.read_ok h
  obtain ⟨r, -, rfl⟩ := Draft.finish_ok hd
  rw [hstart] at hgiven
  rw [hbuild]
  exact filledBy_of_given hgiven

/-- A table that a record cannot do without. -/
theorem filledBy_of_found {s : Shape (Draft (Named α) β)} {build : Named α → β → γ}
    {q : γ → Named α} (hr : s.Reads i Prod.fst (ReadAs (readTable read) some))
    (h : s.read (none, start) (Draft.finish key build) n = .ok c)
    (hbuild : ∀ t b, q (build t b) = t) :
    FilledBy (fun _ v a => read v = .ok a) (kept (s.table i n)) (q c) := by
  obtain ⟨d, hd, hgiven⟩ := hr.read_ok h
  obtain ⟨t, ht, rfl⟩ := Draft.finish_ok hd
  rw [ht] at hgiven
  rw [hbuild]
  exact filledBy_of_required hgiven

end Record

theorem readStart_ok {start : StartSpec} (h : readStart n = .ok start) :
    FilledBy (fun _ v a => readWord v = .ok a) (kept (typedPairs n)) start.ids :=
  filledBy_of_alternatives StartSpec.single StartSpec.byId StartSpec.ids
    (fun _ _ => pairs_of_readWord)
    (fun _ => rfl) (fun _ => rfl) h

theorem readEnum_ok {spec : EnumSpec} (h : readEnum n = .ok spec) :
    FilledBy (fun _ v e => readEntrySpec v = .ok e) (kept (typedPairs n)) spec.ownEntries :=
  filledBy_of_alternatives EnumSpec.shared EnumSpec.own EnumSpec.ownEntries
    (fun _ _ => pairs_of_readText)
    (fun _ => rfl) (fun _ => rfl) h

theorem readSharedEnum_ok {spec : SharedEnumSpec} (h : readSharedEnum n = .ok spec) :
    FilledBy (fun _ v e => readEntrySpec v = .ok e) (kept (Written.entries n)) spec.entries := by
  have hr : sharedEnumShape.Reads 0 Prod.fst (ReadAs (readTable readEntrySpec) some) :=
    .of_key rfl rfl (fun _ _ => rfl) (by simp [sharedEnumShape])
  exact filledBy_of_found hr h fun _ _ => rfl

theorem readField_ok {spec : FieldSpec} (h : readField n = .ok spec) :
    FilledBy (fun _ v e => readEntrySpec v = .ok e) (kept (Written.ownEntries n))
      (spec.enumeration.elim .empty EnumSpec.ownEntries) := by
  have hr : fieldShape.Reads 4 (fun d => d.2.enumeration) (ReadAs (readOption readEnum) id) :=
    .of_key rfl rfl (fun _ _ => rfl) (by simp [fieldShape])
  obtain ⟨d, hd, hgiven⟩ := hr.read_ok h
  obtain ⟨bits, -, rfl⟩ := Draft.finish_ok hd
  exact filledBy_of_typed (fun _ _ => readEnum_ok) hgiven

theorem readTemplate_ok {spec : TemplateSpec} (h : readTemplate n = .ok spec) :
    FilledBy (fun _ v f => readField v = .ok f) (kept (Written.templateFields n)) spec.fields := by
  have hr : templateShape.Reads 1 (fun d => d.2.fields) (ReadAs (readTable readField) id) :=
    .of_key rfl rfl (fun _ _ => rfl) (by simp [templateShape])
  exact filledBy_of_rest hr h rfl fun _ _ => rfl

theorem readBlock_ok {spec : BlockSpec} (h : readBlock n = .ok spec) :
    FilledBy (fun _ v t => readTemplate v = .ok t) (kept (Written.templates n)) spec.registers := by
  have hr : blockShape.Reads 0 Prod.fst (ReadAs (readTable readTemplate) some) :=
    .of_key rfl rfl (fun _ _ => rfl) (by simp [blockShape])
  exact filledBy_of_found hr h fun _ _ => rfl

theorem RawEntry.classify_ok {raw : RawEntry} {e : Entry} (h : raw.classify = .ok e) :
    e.fields = raw.fields.getD .empty ∧ e.ids = raw.start.elim .empty StartSpec.ids := by
  cases e with
  | register spec =>
    obtain ⟨-, hkeys, rfl⟩ := classify_register_iff.1 h
    obtain ⟨hstart, -⟩ := not_blockOnly hkeys
    rw [hstart]
    exact ⟨rfl, rfl⟩
  | block use =>
    obtain ⟨-, hstart, hkeys, -⟩ := classify_block_iff.1 h
    obtain ⟨hfields, -⟩ := not_registerOnly hkeys
    rw [hfields, hstart]
    exact ⟨rfl, rfl⟩

theorem readEntry_fields {e : Entry} (h : readEntry n = .ok e) :
    FilledBy (fun _ v f => readField v = .ok f) (kept (Written.fields n)) e.fields := by
  have hr : rawEntryShape.Reads 3 RawEntry.fields (ReadAs (readOption (readTable readField)) id) :=
    .of_key rfl rfl (fun _ _ => rfl) (by simp [rawEntryShape])
  obtain ⟨d, hd, hgiven⟩ := hr.read_ok h
  rw [(RawEntry.classify_ok (Success.mapError_eq_ok.1 hd)).1]
  exact filledBy_of_optional hgiven

theorem readEntry_ids {e : Entry} (h : readEntry n = .ok e) :
    FilledBy (fun _ v a => readWord v = .ok a) (kept (Written.starts n)) e.ids := by
  have hr : rawEntryShape.Reads 1 RawEntry.start (ReadAs (readOption readStart) id) :=
    .of_key rfl rfl (fun _ _ => rfl) (by simp [rawEntryShape])
  obtain ⟨d, hd, hgiven⟩ := hr.read_ok h
  rw [(RawEntry.classify_ok (Success.mapError_eq_ok.1 hd)).2]
  exact filledBy_of_typed (fun _ _ => readStart_ok) hgiven

section Sections

variable {l : Listing} (h : ofNode n = .ok l)
include h

theorem ofNode_registers :
    FilledBy (fun _ v e => readEntry v = .ok e) (kept (Written.registers n)) l.registers := by
  have hr : shape.Reads 6 (fun d => d.2.registers) (ReadAs (readTable readEntry) id) :=
    .of_key rfl rfl (fun _ _ => rfl) (by simp [shape])
  exact filledBy_of_rest hr h rfl fun _ _ => rfl

theorem ofNode_enums :
    FilledBy (fun _ v e => readSharedEnum v = .ok e) (kept (Written.enums n)) l.enums := by
  have hr : shape.Reads 7 (fun d => d.2.enums) (ReadAs (readTable readSharedEnum) id) :=
    .of_key rfl rfl (fun _ _ => rfl) (by simp [shape])
  exact filledBy_of_rest hr h rfl fun _ _ => rfl

theorem ofNode_blocks :
    FilledBy (fun _ v b => readBlock v = .ok b) (kept (Written.blocks n)) l.blocks := by
  have hr : shape.Reads 8 (fun d => d.2.blocks) (ReadAs (readTable readBlock) id) :=
    .of_key rfl rfl (fun _ _ => rfl) (by simp [shape])
  exact filledBy_of_rest hr h rfl fun _ _ => rfl

end Sections

end RegAtlas.Listing
