import RegAtlas.Generator.Basic
import RegAtlas.Proofs.CHeader.MacroMap
import RegAtlas.Proofs.Enumeration
import RegAtlas.Proofs.Guarded.Markdown
import RegAtlas.Proofs.LayoutInstances
import RegAtlas.Proofs.Markdown.Lines
import RegAtlas.Proofs.Numeral

namespace RegAtlas.Markdown.DumpAnalysis

variable {m : RegisterMap} {r : Register} {f : Field} {v x : Word}

/-- What can be said of the value of a field: the entry that it stands for, that it stands for none
of those there are, or nothing. -/
inductive Verdict where
  | entry (e : EnumEntry)
  | error
  | plain
deriving DecidableEq

namespace Verdict

def Of (f : Field) (x : Word) : Verdict → Prop
  | entry e => f.HasEntry e ∧ e.value = x
  | error => (∃ e, f.enumeration = some e) ∧ ∀ entry, f.HasEntry entry → entry.value ≠ x
  | plain => f.enumeration = none

def cell (x : Word) : Verdict → String
  | entry e => s!"{e.name} ({Numeral.hexUpper x})"
  | error => "ERROR"
  | plain => "?"

def lines : Verdict → List String
  | entry e => s!"    - *SELECTED*: {e.name}" :: e.docs.twoLine "      - "
  | error => ["    - *ERROR*: Value does not correspond to any enum entry."]
  | plain => []

end Verdict

/-- There is a column for each range of the field, and the last row of it says `meaning`. -/
def ShownAs (meaning : String) (r : Register) (v : Word) (rows : List Columns.Row) (f : Field) :
    Prop :=
  ∀ range ∈ f.bits.ranges, (∃ i : Nat, r.layoutRanges[i]? = some range) ∧
    ∀ i : Nat, r.layoutRanges[i]? = some range → rows.map (·[i + 1]?) =
      [range.text, f.name, Numeral.hexUpper (range.extract v), meaning].map some

/-- The rows and the block tell of the field, of its own value in `v` and of the verdict on it. -/
def Reported (r : Register) (v : Word) (rows : List Columns.Row) (f : Field)
    (block : List String) : Prop :=
  ∃ x w, f.extract v = .ok x ∧ (∀ w', Verdict.Of f x w' ↔ w' = w) ∧
    ShownAs (w.cell x) r v rows f ∧
    block = s!"  - {f.name}: {Numeral.hexUpper x}" :: (f.docs.twoLine "    - " ++ w.lines)

def listOf (blocks : List (List String)) : List String :=
  if blocks.isEmpty then [] else ["", "*Bitfields*:", ""] ++ blocks.flatten

/-- The heading and the body of the section of an address at which the dump has the value `v`. -/
inductive Explains (m : RegisterMap) (address v : Word) : String → List String → Prop
  | register {r : Register} {rows : List Columns.Row} {blocks : List (List String)}
      (only : ∀ r', r' ∈ m.registers.values ∧ r'.address = some address ↔ r' = r)
      (titles : rows.map (·.head?) = ["Bits:", "Field:", "Value:", "Decode:"].map some)
      (even : ∀ row ∈ rows, row.length = r.layoutRanges.length + 1)
      (fields : List.Forall₂ (Reported r v rows) r.fieldsByPosition blocks) :
      Explains m address v s!"## {Numeral.hexUpper address} - {r.name}"
        (valueLines v ++ [""] ++ table rows ++ listOf blocks)
  | unknown (none : ∀ r ∈ m.registers.values, r.address ≠ some address) :
      Explains m address v s!"## {Numeral.hexUpper address} - ?" (valueLines v)

def isHeading (line : List Char) : Bool := ['#', '#', ' '].isPrefixOf line

def isHeadingOf (address : Word) (line : List Char) : Bool :=
  s!"## {Numeral.hexUpper address} - ".toList.isPrefixOf line

structure Analysis (m : RegisterMap) (d : Dump) (text : String) : Prop where
  sections : ∃ parts : List (String × List String),
    List.Forall₂ (fun e part => Explains m e.1 e.2 part.1 part.2) d.entries parts ∧
    text = unlines (s!"# {m.name} Register Dump Analysis" ::
      parts.flatMap fun part => "" :: part.1 :: part.2) ∧
    (Text.pieces text.toList).filter isHeading = parts.map (·.1.toList)
  ascending : (d.entries.map Prod.fst).Pairwise fun a b => a.toNat < b.toNat
  once : ∀ address, (Text.pieces text.toList).countP (isHeadingOf address) =
    if d.contains address then 1 else 0

theorem exists_verdict {enums : Named Enumeration} (hf : f.Coherent enums) (x : Word) :
    ∃ w, ∀ w', Verdict.Of f x w' ↔ w' = w := by
  cases he : f.enumeration with
  | none =>
    refine ⟨.plain, fun w' => ?_⟩
    cases w' <;> simp [Verdict.Of, Field.HasEntry, he]
  | some e =>
    cases hx : f.entryByValue x with
    | none =>
      have hnone := Field.entryByValue_eq_none_iff.1 hx
      refine ⟨.error, fun w' => ?_⟩
      cases w' with
      | entry entry => simpa [Verdict.Of] using hnone entry
      | error => simpa [Verdict.Of, he] using hnone
      | plain => simp [Verdict.Of, he]
    | some entry =>
      have hentry := hf.entryByValue_eq_some_iff.1 hx
      refine ⟨.entry entry, fun w' => ?_⟩
      cases w' with
      | entry entry' =>
        rw [Verdict.Of, ← hf.entryByValue_eq_some_iff, hx]
        simp [eq_comm]
      | error => simpa [Verdict.Of] using fun _ _ => ⟨entry, hentry⟩
      | plain => simp [Verdict.Of, he]

theorem lookup_verdict {enums : Named Enumeration} {w : Verdict} (hf : f.Coherent enums)
    (hw : Verdict.Of f x w) : match w with
      | .entry entry => (∃ e, f.enumeration = some e) ∧ f.entryByValue x = some entry
      | .error => (∃ e, f.enumeration = some e) ∧ f.entryByValue x = none
      | .plain => f.enumeration = none := by
  cases w with
  | entry entry =>
    obtain ⟨e, k, he, hk⟩ := hw.1
    exact ⟨⟨e, he⟩, hf.entryByValue_eq_some_iff.2 hw⟩
  | error => exact hw.imp_right Field.entryByValue_eq_none_iff.2
  | plain => exact hw

theorem decodeField_eq {enums : Named Enumeration} {w : Verdict} (hf : f.Coherent enums)
    (hx : f.extract v = .ok x) (hw : Verdict.Of f x w) : decodeField f v = w.cell x := by
  have hlookup := lookup_verdict hf hw
  unfold decodeField
  rw [hx]
  simp only [Except.toOption, Option.getD_some]
  cases w with
  | entry entry =>
    obtain ⟨⟨e, he⟩, hentry⟩ := hlookup
    simp only [he, hentry, Verdict.cell]
  | error =>
    obtain ⟨⟨e, he⟩, hnone⟩ := hlookup
    simp only [he, hnone, Verdict.cell]
  | plain => simp only [show f.enumeration = none from hlookup, Verdict.cell]

theorem entryLines_eq {enums : Named Enumeration} {w : Verdict} (hf : f.Coherent enums)
    (hw : Verdict.Of f x w) : entryLines f x = w.lines := by
  have hlookup := lookup_verdict hf hw
  unfold entryLines
  cases w with
  | entry entry =>
    obtain ⟨⟨e, he⟩, hentry⟩ := hlookup
    simp only [he, hentry, Verdict.lines]
  | error =>
    obtain ⟨⟨e, he⟩, hnone⟩ := hlookup
    simp only [he, hnone, Verdict.lines]
  | plain => simp only [show f.enumeration = none from hlookup, Verdict.lines]

theorem segment_of_range (h : r.form.WellFormed) (hf : f ∈ r.fields.values)
    {s : BitRange × Segment} (hs : s ∈ r.bitLayout) (hrange : s.1 ∈ f.bits.ranges) :
    s.2 = .field f :=
  (Register.mem_bitLayout_of_group h (Register.mem_groups_iff.2 (.inl ⟨f, hf, rfl⟩)) hrange).1 hs

theorem layoutTable_column {i : Nat} {s : BitRange × Segment} (hs : r.bitLayout[i]? = some s) :
    (layoutTable r (some v)).map (·[i + 1]?) =
      [(layoutColumn v s.1 s.2).bits, (layoutColumn v s.1 s.2).field,
        (layoutColumn v s.1 s.2).value, (layoutColumn v s.1 s.2).decode].map some := by
  simp [layoutTable, hs]

theorem shownAs_layoutTable (h : r.form.WellFormed) (hf : f ∈ r.fields.values) (v : Word) :
    ShownAs (decodeField f v) r v (layoutTable r (some v)) f := by
  intro range hrange
  constructor
  · have hmem : range ∈ r.layoutRanges := by
      refine List.mem_map.2 ⟨(range, .field f), Register.mem_bitLayout_iff.2 ?_, rfl⟩
      exact ⟨_, Register.mem_groups_iff.2 (.inl ⟨f, hf, rfl⟩), hrange, rfl⟩
    exact List.mem_iff_getElem?.1 hmem
  · intro i hi
    rw [Register.layoutRanges, List.getElem?_map, Option.map_eq_some_iff] at hi
    obtain ⟨s, hs, rfl⟩ := hi
    rw [layoutTable_column hs]
    simp only [layoutColumn, segment_of_range h hf (List.mem_of_getElem? hs) hrange]

theorem length_of_mem_layoutTable {row : Columns.Row} (hrow : row ∈ layoutTable r (some v)) :
    row.length = r.layoutRanges.length + 1 := by
  simp only [layoutTable, List.mem_cons, List.not_mem_nil, or_false] at hrow
  rcases hrow with rfl | rfl | rfl | rfl <;> simp [Register.layoutRanges]

theorem reported {enums : Named Enumeration} (h : r.form.WellFormed)
    (hr : r.form.Coherent enums) (hf : f ∈ r.fieldsByPosition) (v : Word) :
    Outcome (Reported r v (layoutTable r (some v)) f) (fun _ => False) (fieldLines v f) := by
  rw [Register.mem_fieldsByPosition_iff] at hf
  obtain ⟨k, hk⟩ := Table.mem_values_iff.1 hf
  have hcoherent := hr.fields k f hk
  obtain ⟨l, hrecovers⟩ := hr.recovers h hk
  obtain ⟨x, hx⟩ := hrecovers.extracted v
  obtain ⟨w, hw⟩ := exists_verdict hcoherent x
  have hof := (hw w).2 rfl
  rw [fieldLines, hx]
  refine ⟨x, w, hx, hw, ?_, ?_⟩
  · rw [← decodeField_eq hcoherent hx hof]
    exact shownAs_layoutTable h hf v
  · rw [← entryLines_eq hcoherent hof]
    rfl

structure Shown (r : Register) : Prop where
  name : OneLine r.name
  fields : ∀ f ∈ r.fields.values, OneLine f.name ∧ f.docs.OnOneLine
  entries : ∀ f ∈ r.fields.values, ∀ entry, f.HasEntry entry →
    OneLine entry.name ∧ entry.docs.OnOneLine

theorem Shown.of_build {l : Listing} (h : l.build.result = .ok m) (hr : r ∈ m.registers.values) :
    Shown r := by
  have hm := RegisterMap.Coherent.of_build h
  obtain ⟨k, hk⟩ := Table.mem_values_iff.1 hr
  have hdocs := RegisterMap.register_docs h hk
  have hform := hm.registers k r hk
  obtain ⟨rfl, hname⟩ := hm.registers_keyed k r hk
  refine ⟨.of_wordy (.of_identifier hname), fun f hf => ?_, fun f hf entry ⟨e, n, he, hn⟩ => ?_⟩
  · obtain ⟨n, hn⟩ := Table.mem_values_iff.1 hf
    obtain ⟨rfl, hfield⟩ := hform.fields_keyed n f hn
    exact ⟨.of_wordy (.of_identifier hfield), (hdocs f hf).1⟩
  · obtain ⟨n', hn'⟩ := Table.mem_values_iff.1 hf
    obtain ⟨rfl, hentry⟩ := ((hform.fields n' f hn').enumeration e he).entries_keyed n entry hn
    exact ⟨.of_wordy (.of_identifier hentry), (hdocs f hf).2 e he _ entry hn⟩

theorem oneLine_decodeField (h : Shown r) (hf : f ∈ r.fields.values) (v : Word) :
    OneLine (decodeField f v) := by
  unfold decodeField
  simp only
  split
  next e entry he hentry =>
    have hname := (h.entries f hf entry (Field.of_entryByValue hentry).1).1
    simp only [oneLine_append]
    exact ⟨⟨⟨hname, by decide⟩, oneLine_hexUpper _⟩, by decide⟩
  next => decide
  next => decide

theorem oneLine_layoutColumn (h : Shown r) {s : BitRange × Segment} (hs : s ∈ r.bitLayout)
    (v : Word) : OneLine (layoutColumn v s.1 s.2).bits ∧ OneLine (layoutColumn v s.1 s.2).field ∧
      OneLine (layoutColumn v s.1 s.2).value ∧ OneLine (layoutColumn v s.1 s.2).decode := by
  unfold layoutColumn
  simp only
  split
  next f hkind =>
    have hf := Register.mem_fields_of_mem_bitLayout hs hkind
    exact ⟨oneLine_range _, (h.fields f hf).1, oneLine_hexUpper _, oneLine_decodeField h hf v⟩
  next expected _ =>
    refine ⟨oneLine_range _, ?_, oneLine_hexUpper _, ?_⟩
    · exact oneLine_append.2 ⟨by decide, oneLine_hex expected⟩
    · dsimp only
      split <;> decide
  next =>
    have hunknown : OneLine "?" := by decide
    exact ⟨oneLine_range _, hunknown, oneLine_hexUpper _, hunknown⟩

theorem oneLine_layoutTable (h : Shown r) (v : Word) :
    ∀ row ∈ layoutTable r (some v), ∀ cell ∈ row, OneLine cell := by
  have hcell (cell : LayoutColumn → String)
      (hcolumn : ∀ s ∈ r.bitLayout, OneLine (cell (layoutColumn v s.1 s.2))) (title : String)
      (htitle : OneLine title) : ∀ c ∈ title :: (r.bitLayout.map fun s =>
        layoutColumn v s.1 s.2).map cell, OneLine c :=
    List.forall_mem_cons.2 ⟨htitle, List.forall_mem_map.2 (List.forall_mem_map.2 hcolumn)⟩
  have hcolumn := fun s hs => oneLine_layoutColumn (s := s) h hs v
  intro row hrow
  simp only [layoutTable, List.mem_cons, List.not_mem_nil, or_false] at hrow
  rcases hrow with rfl | rfl | rfl | rfl
  · exact hcell (·.bits) (fun s hs => (hcolumn s hs).1) _ (by decide)
  · exact hcell (·.field) (fun s hs => (hcolumn s hs).2.1) _ (by decide)
  · exact hcell (·.value) (fun s hs => (hcolumn s hs).2.2.1) _ (by decide)
  · exact hcell (·.decode) (fun s hs => (hcolumn s hs).2.2.2) _ (by decide)

theorem inner_valueLines (v : Word) : ∀ l ∈ valueLines v, Inner l := by
  have hlead : Inner "  - " := by decide
  have hne : ("  - " : String) ≠ "" := by decide
  simp only [valueLines, List.forall_mem_cons]
  exact ⟨by decide, hlead.append hne (oneLine_hexUpper v), hlead.append hne (oneLine_binary v),
    List.forall_mem_nil _⟩

theorem inner_verdict {w : Verdict} (h : ∀ e, w = .entry e → OneLine e.name ∧ e.docs.OnOneLine) :
    ∀ l ∈ w.lines, Inner l := by
  cases w with
  | entry e =>
    obtain ⟨hname, hdocs⟩ := h e rfl
    refine List.forall_mem_cons.2 ⟨?_, inner_twoLine hdocs (by decide) (by decide)⟩
    exact Inner.append (by decide) (by decide) hname
  | error => exact List.forall_mem_singleton.2 (by decide)
  | plain => exact List.forall_mem_nil _

theorem inner_reported {rows : List Columns.Row} {block : List String} (h : Shown r)
    (hf : f ∈ r.fields.values) (hblock : Reported r v rows f block) : ∀ l ∈ block, Inner l := by
  obtain ⟨x, w, -, hw, -, rfl⟩ := hblock
  obtain ⟨hname, hdocs⟩ := h.fields f hf
  have hlead : Inner "  - " := by decide
  refine List.forall_mem_cons.2 ⟨?_, List.forall_mem_append.2 ⟨?_, inner_verdict ?_⟩⟩
  · have hrest : OneLine (f.name ++ (": " ++ Numeral.hexUpper x)) := by
      simp only [oneLine_append]
      exact ⟨hname, by decide, oneLine_hexUpper x⟩
    simpa only [CHeader.toString_text, String.append_assoc] using hlead.append (by decide) hrest
  · exact inner_twoLine hdocs (by decide) (by decide)
  · rintro e rfl
    exact h.entries f hf e ((hw _).2 rfl).1

theorem isHeading_of_inner {l : String} (h : Inner l) : isHeading l.toList = false := by
  rw [isHeading, Bool.eq_false_iff, ne_eq, List.isPrefixOf_iff_prefix]
  rintro ⟨rest, hrest⟩
  exact h.2 (by rw [← hrest]; rfl)

structure Made (m : RegisterMap) (e : Word × Word) (part : String × List String) : Prop where
  explains : Explains m e.1 e.2 part.1 part.2
  heading : ∃ name, OneLine name ∧ part.1 = s!"## {Numeral.hexUpper e.1} - " ++ name
  body : ∀ l ∈ part.2, Inner l

theorem registerAt_eq_some_iff (hm : m.WellFormed) {address : Word} :
    m.registerAt address = some r ↔
      ∀ r', r' ∈ m.registers.values ∧ r'.address = some address ↔ r' = r := by
  -- At most one register of a well-formed map has an address.
  rw [hm.registerAt_eq_some_iff]
  constructor
  · intro hr r'
    refine ⟨fun hr' => hm.eq_of_address hr'.1 hr.1 hr'.2 hr.2, ?_⟩
    rintro rfl
    exact hr
  · exact fun h => (h r).2 rfl

theorem registerAt_eq_none_iff {address : Word} :
    m.registerAt address = none ↔ ∀ r ∈ m.registers.values, r.address ≠ some address := by
  simp only [RegisterMap.registerAt, List.find?_eq_none, beq_iff_eq, ne_eq]

theorem exists_registerLines {enums : Named Enumeration} (h : r.form.WellFormed)
    (hr : r.form.Coherent enums) (v : Word) : ∃ blocks,
      registerLines r v = .ok (valueLines v ++ [""] ++ table (layoutTable r (some v)) ++
        listOf blocks) ∧
      List.Forall₂ (Reported r v (layoutTable r (some v))) r.fieldsByPosition blocks := by
  have hmapM := Outcome.mapM (E := fun _ => False) fun f hf => reported h hr hf v
  unfold registerLines
  cases hblocks : r.fieldsByPosition.mapM (fieldLines v) with
  | error e =>
    rw [hblocks] at hmapM
    exact hmapM.elim
  | ok blocks =>
    rw [hblocks] at hmapM
    refine ⟨blocks, ?_, hmapM⟩
    have hlength : r.fields.entries.length = blocks.length := by
      rw [← hmapM.length_eq, Register.fieldsByPosition, Field.byPosition, List.length_mergeSort,
        Table.values, List.length_map]
    have hempty : r.fields.isEmpty = blocks.isEmpty := by
      rw [Table.isEmpty, Bool.eq_iff_iff, List.isEmpty_iff_length_eq_zero, hlength,
        List.isEmpty_iff_length_eq_zero]
    rw [listOf, ← hempty]
    rfl

theorem inner_register (h : Shown r) {v : Word} {blocks : List (List String)}
    (hblocks : List.Forall₂ (Reported r v (layoutTable r (some v))) r.fieldsByPosition blocks) :
    ∀ l ∈ valueLines v ++ [""] ++ table (layoutTable r (some v)) ++ listOf blocks, Inner l := by
  have hempty : Inner "" := by decide
  refine List.forall_mem_append.2 ⟨List.forall_mem_append.2 ⟨List.forall_mem_append.2
    ⟨inner_valueLines v, List.forall_mem_singleton.2 hempty⟩,
    inner_table (oneLine_layoutTable h v)⟩, ?_⟩
  unfold listOf
  split
  next => exact List.forall_mem_nil _
  next =>
    refine List.forall_mem_append.2 ⟨?_, fun l hl => ?_⟩
    · simp only [List.forall_mem_cons]
      exact ⟨hempty, by decide, hempty, List.forall_mem_nil _⟩
    · obtain ⟨block, hblock, hl⟩ := List.mem_flatten.1 hl
      obtain ⟨f, hf, hreported⟩ := Table.exists_of_forall₂_right hblocks hblock
      exact inner_reported h (Register.mem_fieldsByPosition_iff.1 hf) hreported l hl

theorem made_section {l : Listing} (h : l.build.result = .ok m) (e : Word × Word) :
    ∃ part, (sectionLines m e.1 e.2).result = .ok ("" :: part.1 :: part.2) ∧ Made m e part := by
  have hm := RegisterMap.WellFormed.of_build h
  unfold sectionLines
  cases hr : m.registerAt e.1 with
  | none =>
    have htitle : s!"## {Numeral.hexUpper e.1} - " ++ "?" = s!"## {Numeral.hexUpper e.1} - ?" := by
      rw [String.append_assoc]
      rfl
    refine ⟨(s!"## {Numeral.hexUpper e.1} - ?", valueLines e.2), ?_,
      .unknown (registerAt_eq_none_iff.1 hr), ⟨"?", by decide, htitle.symm⟩, inner_valueLines e.2⟩
    rw [← htitle]
    rfl
  | some r =>
    have honly := (registerAt_eq_some_iff hm).1 hr
    have hmem := ((honly r).2 rfl).1
    obtain ⟨k, hk⟩ := Table.mem_values_iff.1 hmem
    have hshown := Shown.of_build h hmem
    obtain ⟨blocks, hlines, hblocks⟩ := exists_registerLines (hm.registers k r hk)
      ((RegisterMap.Coherent.of_build h).registers k r hk) e.2
    refine ⟨(_, valueLines e.2 ++ [""] ++ table (layoutTable r (some e.2)) ++ listOf blocks), ?_,
      .register honly rfl (fun row hrow => length_of_mem_layoutTable hrow) hblocks,
      ⟨r.name, hshown.name, rfl⟩, inner_register hshown hblocks⟩
    simp only [Logged.result_bind, Logged.result_liftM, hlines]
    rfl

variable {e : Word × Word} {part : String × List String} {parts : List (String × List String)}

theorem Made.oneLine (h : Made m e part) : OneLine part.1 := by
  obtain ⟨name, hname, heq⟩ := h.heading
  rw [heq]
  simp only [CHeader.toString_text, oneLine_append]
  exact ⟨⟨⟨by decide, oneLine_hexUpper e.1⟩, by decide⟩, hname⟩

theorem Made.isHeading (h : Made m e part) : isHeading part.1.toList = true := by
  obtain ⟨name, -, heq⟩ := h.heading
  rw [DumpAnalysis.isHeading, List.isPrefixOf_iff_prefix, heq]
  simp only [CHeader.toString_text, String.append_assoc, String.toList_append]
  exact List.prefix_append _ _

theorem Made.isHeadingOf_iff (h : Made m e part) {address : Word} :
    isHeadingOf address part.1.toList = true ↔ e.1 = address := by
  obtain ⟨name, -, heq⟩ := h.heading
  rw [isHeadingOf, List.isPrefixOf_iff_prefix, heq]
  simp only [CHeader.toString_text, String.append_assoc, String.toList_append]
  -- Nothing in a number is a blank, so that the number ends at the first one.
  have hnumber (w : Word) (rest : List Char) :
      ((Numeral.hexUpper w).toList ++ (" - ".toList ++ rest)).takeWhile (· != ' ') =
        (Numeral.hexUpper w).toList := by
    rw [List.takeWhile_append_of_pos fun c hc => ?_]
    · exact List.append_nil _
    · exact bne_iff_ne.2 (CHeader.ne_of_isNameChar (CHeader.Wordy.hexUpper w c hc) rfl)
  constructor
  · intro hprefix
    obtain ⟨rest, hrest⟩ := (List.prefix_append_right_inj _).1 hprefix
    have hhex := congrArg (List.takeWhile (· != ' ')) hrest
    rw [List.append_assoc, hnumber, hnumber] at hhex
    exact (Numeral.hexUpper_injective (String.toList_inj.1 hhex)).symm
  · rintro rfl
    refine (List.prefix_append_right_inj _).2 ((List.prefix_append_right_inj _).2 ?_)
    exact List.prefix_append _ _

def sectionText (parts : List (String × List String)) : List String :=
  parts.flatMap fun part => "" :: part.1 :: part.2

variable {es : List (Word × Word)}

theorem oneLine_sectionText (h : List.Forall₂ (Made m) es parts) :
    ∀ l ∈ sectionText parts, OneLine l := by
  intro l hl
  obtain ⟨part, hpart, hl⟩ := List.mem_flatMap.1 hl
  obtain ⟨e, -, hmade⟩ := Table.exists_of_forall₂_right h hpart
  rcases List.mem_cons.1 hl with rfl | hl
  · decide
  · rcases List.mem_cons.1 hl with rfl | hl
    · exact hmade.oneLine
    · exact (hmade.body l hl).1

theorem filter_sectionText (h : List.Forall₂ (Made m) es parts) :
    ((sectionText parts).map String.toList).filter isHeading = parts.map (·.1.toList) := by
  induction h with
  | nil => rfl
  | @cons e part es parts hmade _ ih =>
    have hbody : (part.2.map String.toList).filter isHeading = [] := by
      rw [List.filter_eq_nil_iff]
      refine List.forall_mem_map.2 fun l hl => ?_
      rw [isHeading_of_inner (hmade.body l hl)]
      decide
    have hempty : isHeading "".toList = false := rfl
    rw [sectionText, List.flatMap_cons, ← sectionText, List.map_append, List.filter_append, ih,
      List.map_cons, List.map_cons, List.filter_cons_of_neg (by rw [hempty]; decide),
      List.filter_cons_of_pos hmade.isHeading, hbody]
    rfl

theorem countP_headings (h : List.Forall₂ (Made m) es parts) (address : Word) :
    (parts.map (·.1.toList)).countP (isHeadingOf address) = (es.map Prod.fst).count address := by
  induction h with
  | nil => rfl
  | @cons e part es parts hmade _ ih =>
    rw [List.map_cons, List.map_cons, List.countP_cons, List.count_cons, ih]
    simp only [hmade.isHeadingOf_iff, beq_iff_eq]

theorem isHeading_of_isHeadingOf {address : Word} {line : List Char}
    (h : isHeadingOf address line = true) : isHeading line = true := by
  rw [isHeadingOf, List.isPrefixOf_iff_prefix] at h
  rw [isHeading, List.isPrefixOf_iff_prefix]
  refine List.IsPrefix.trans ?_ h
  simp only [CHeader.toString_text, String.append_assoc, String.toList_append]
  exact List.prefix_append _ _

theorem analysis_of_made {d : Dump} (hname : OneLine m.name)
    (h : List.Forall₂ (Made m) d.entries parts) :
    Analysis m d (unlines (s!"# {m.name} Register Dump Analysis" :: sectionText parts)) := by
  have htitle : OneLine s!"# {m.name} Register Dump Analysis" := by
    simp only [CHeader.toString_text, oneLine_append]
    exact ⟨⟨by decide, hname⟩, by decide⟩
  have hpieces := pieces_unlines (List.forall_mem_cons.2 ⟨htitle, oneLine_sectionText h⟩)
  have hfilter : (Text.pieces (unlines (s!"# {m.name} Register Dump Analysis" ::
      sectionText parts)).toList).filter isHeading = parts.map (·.1.toList) := by
    have hfirst : isHeading s!"# {m.name} Register Dump Analysis".toList = false := by
      simp only [CHeader.toString_text, String.append_assoc, String.toList_append]
      rfl
    have hlast : [[]].filter isHeading = [] := rfl
    rw [hpieces, List.filter_append, List.map_cons,
      List.filter_cons_of_neg (by rw [hfirst]; decide), filter_sectionText h, hlast,
      List.append_nil]
  refine ⟨⟨parts, h.imp fun _ _ hmade => hmade.explains, rfl, hfilter⟩, ?_, fun address => ?_⟩
  · exact List.pairwise_map.2
      (d.ascending.imp fun hlt => BitVec.lt_def.1 (compareOfLessAndEq_eq_lt.1 hlt))
  · have hcount : (Text.pieces (unlines (s!"# {m.name} Register Dump Analysis" ::
        sectionText parts)).toList).countP (isHeadingOf address) = d.keys.count address := by
      rw [Table.keys, ← countP_headings h, ← hfilter, List.countP_filter]
      refine List.countP_congr fun line _ => ?_
      rw [Bool.and_eq_true]
      exact ⟨fun hof => ⟨hof, isHeading_of_isHeadingOf hof⟩, And.left⟩
    rw [hcount, Table.keys_nodup.count]
    simp only [Table.mem_keys_iff, Table.contains, Option.isSome_iff_exists]

/-- An analysis of any dump for a built map reports each value of the dump once, and what it says of
a field in the table and in the list of fields agrees. -/
theorem analysis_of_build {l : Listing} (h : l.build.result = .ok m) {s : Setting} {d : Dump}
    (hd : s.dump = some d) :
    ∃ text, (Generator.dumpAnalysis.generate m s).result = .ok text ∧ Analysis m d text := by
  choose part hpart hmade using made_section h
  have hsections : (d.entries.mapM fun e => (sectionLines m e.1 e.2).result) =
      .ok (d.entries.map fun e => "" :: (part e).1 :: (part e).2) :=
    Success.mapM_eq_map fun e _ => hpart e
  have hname : OneLine m.name := .of_wordy (.of_identifier (RegisterMap.Coherent.of_build h).name)
  have hparts : List.Forall₂ (Made m) d.entries (d.entries.map part) :=
    List.forall₂_map_right_iff.2 (List.forall₂_same.2 fun e _ => hmade e)
  refine ⟨_, ?_, analysis_of_made hname hparts⟩
  simp only [Generator.generate, Generator.lines, hd, lines, Logged.result_bind,
    Logged.result_report, Logged.result_mapM, Logged.result_pure, hsections]
  rw [sectionText, List.flatMap_map]
  rfl

/-- The first value is wider than the register at its address, and there is no register at the other
address. -/
def pumpDump : Dump := ⟨[(0x10#64, 0x1B0#64), (0x300#64, 7#64)], by decide⟩

theorem pump_analysis : ∃ m text, Listing.pump.build.result = .ok m ∧
    pumpDump.keys.map (fun a => (m.registerAt a).map (·.name)) = [some "STATUS", none] ∧
    (Generator.dumpAnalysis.generate m ⟨none, none, .standard, some pumpDump⟩).result = .ok text ∧
    Analysis m pumpDump text := by
  have hfound : Listing.pump.build.result.toOption.map (fun m =>
      pumpDump.keys.map fun a => (m.registerAt a).map (·.name)) = some [some "STATUS", none] := by
    decide +kernel
  obtain ⟨m, hm, hfound⟩ := Success.exists_ok hfound
  obtain ⟨text, htext, hanalysis⟩ := analysis_of_build hm
    (rfl : (⟨none, none, .standard, some pumpDump⟩ : Setting).dump = some pumpDump)
  exact ⟨m, text, hm, hfound, htext, hanalysis⟩

end RegAtlas.Markdown.DumpAnalysis
