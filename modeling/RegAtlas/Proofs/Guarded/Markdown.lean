import RegAtlas.Markdown.Datasheet
import RegAtlas.Markdown.DumpAnalysis
import RegAtlas.Proofs.BitLayout
import RegAtlas.Proofs.Guarded.Basic

namespace RegAtlas

open Guarded (Makes)

variable {r : Register} {f : Field} {m : RegisterMap}

namespace Register

def guardedSegments (r : Register) : Guarded (List (BitRange × Segment)) := do
  let fixed ← r.alwaysWrite.elim (.ok []) fun aw =>
    aw.bits.ranges.mapM fun range => (range.guardedExtract aw.value).map fun value =>
      (range, Segment.alwaysWrite value)
  return (r.fields.values.flatMap fun f => f.bits.ranges.map fun range => (range, .field f)) ++
    fixed ++ (r.unusedBits false).ranges.map fun range => (range, .unused)

def guardedBitLayout (r : Register) : Guarded (List (BitRange × Segment)) :=
  r.guardedSegments.map fun segments => segments.mergeSort fun a b => b.1.lsb ≤ a.1.lsb

theorem guardedBitLayout_eq (h : r.form.Safe) : r.guardedBitLayout = .ok r.bitLayout := by
  have hfixed : (r.alwaysWrite.elim (.ok []) fun aw =>
      aw.bits.ranges.mapM fun range => (range.guardedExtract aw.value).map fun value =>
        (range, Segment.alwaysWrite value)) =
      (.ok (r.alwaysWrite.elim [] fun aw =>
        aw.bits.ranges.map fun range => (range, .alwaysWrite (range.extract aw.value))) :
          Guarded (List (BitRange × Segment))) := by
    cases haw : r.alwaysWrite with
    | none => rfl
    | some aw =>
      refine Success.mapM_eq_map fun range hrange => ?_
      have hlsb : range.lsb < 64 :=
        BitSet.lsb_lt_of_mem_ranges (fun i hi => h.alwaysWrite_lt haw hi) hrange
      rw [BitRange.guardedExtract_eq hlsb]
      rfl
  rw [guardedBitLayout, guardedSegments, hfixed]
  rfl

theorem lsb_lt_of_mem_bitLayout (h : r.form.Safe) {s : BitRange × Segment} (hs : s ∈ r.bitLayout) :
    s.1.lsb < 64 :=
  ((bitLayout_cover h.wellFormed).2
    ⟨s, hs, s.1.contains_lsb⟩).trans_le h.wellFormed.width_le

theorem mem_fields_of_mem_bitLayout {s : BitRange × Segment} (hs : s ∈ r.bitLayout)
    (hf : s.2 = .field f) : f ∈ r.fields.values := by
  rcases segment_cases hs s.1.contains_lsb with
    ⟨g, hg, -, hkind⟩ | ⟨aw, -, -, hkind⟩ | ⟨-, hkind⟩
  · cases hf.symm.trans hkind
    exact hg
  · cases hf.symm.trans hkind
  · cases hf.symm.trans hkind

theorem mem_fieldsByPosition_iff : f ∈ r.fieldsByPosition ↔ f ∈ r.fields.values :=
  List.mem_mergeSort

end Register

namespace Markdown

def guardedDecodeField (f : Field) (registerValue : Word) : Guarded String := do
  let value ← f.bits.guardedExtract registerValue
  return match f.enumeration, f.entryByValue value with
  | some _, some entry => s!"{entry.name} ({Numeral.hexUpper value})"
  | some _, none => "ERROR"
  | none, _ => "?"

def guardedLayoutColumn (v : Word) (range : BitRange) (segment : Segment) :
    Guarded LayoutColumn := do
  let value ← range.guardedExtract v
  let shown := Numeral.hexUpper value
  match segment with
  | .field f =>
    let access := f.accessText
    let meant ← guardedDecodeField f v
    return ⟨range.text, f.name, if access.isEmpty then "?" else access, shown, meant⟩
  | .alwaysWrite expected =>
    return ⟨range.text, s!"Always write {Numeral.hex expected}", "", shown,
      if value = expected then "OK" else "ERROR"⟩
  | .unused => return ⟨range.text, "?", "?", shown, "?"⟩

def guardedLayoutTable (r : Register) (value : Option Word) : Guarded (List Columns.Row) := do
  let segments ← r.guardedBitLayout
  let columns ← segments.mapM fun s => guardedLayoutColumn (value.getD Word.zero) s.1 s.2
  let row (title : String) (cell : LayoutColumn → String) := title :: columns.map cell
  return match value with
  | some _ => [row "Bits:" (·.bits), row "Field:" (·.field), row "Value:" (·.value),
      row "Decode:" (·.decode)]
  | none => [row "Bits:" (·.bits), row "Field:" (·.field), row "Access:" (·.access)]

theorem guardedDecodeField_eq (h : r.form.Safe) (hf : f ∈ r.fields.values) (v : Word) :
    guardedDecodeField f v = .ok (decodeField f v) := by
  obtain ⟨value, hg, hx⟩ := h.makes_extract hf v
  rw [guardedDecodeField, decodeField, hg, hx]
  rfl

theorem guardedLayoutColumn_eq (h : r.form.Safe) {s : BitRange × Segment} (hs : s ∈ r.bitLayout)
    (v : Word) : guardedLayoutColumn v s.1 s.2 = .ok (layoutColumn v s.1 s.2) := by
  unfold guardedLayoutColumn layoutColumn
  rw [BitRange.guardedExtract_eq (Register.lsb_lt_of_mem_bitLayout h hs)]
  cases hkind : s.2 with
  | field f =>
    have hf := Register.mem_fields_of_mem_bitLayout hs hkind
    dsimp only
    rw [guardedDecodeField_eq h hf]
    rfl
  | alwaysWrite expected => rfl
  | unused => rfl

theorem guardedLayoutTable_eq (h : r.form.Safe) (value : Option Word) :
    guardedLayoutTable r value = .ok (layoutTable r value) := by
  have hcolumns : (r.bitLayout.mapM fun s =>
      guardedLayoutColumn (value.getD Word.zero) s.1 s.2) =
      .ok (r.bitLayout.map fun s => layoutColumn (value.getD Word.zero) s.1 s.2) :=
    Success.mapM_eq_map fun s hs => guardedLayoutColumn_eq h hs _
  rw [guardedLayoutTable, Register.guardedBitLayout_eq h]
  change Except.bind (r.bitLayout.mapM _) _ = _
  rw [hcolumns]
  cases value <;> rfl

namespace Datasheet

def guardedOverviewRow (r : Register) : Guarded Columns.Row :=
  (Field.guardedByPosition r.fields).map fun fs =>
    [r.address.elim "-" Numeral.hexUpper, r.name, ", ".intercalate (fs.map (·.name))]

def guardedRegisterLines (r : Register) : Guarded (List String) := do
  let rows ← guardedLayoutTable r none
  let fields ← Field.guardedByPosition r.fields
  return [s!"### {r.name}", ""] ++ factLines r ++ [""] ++ table rows ++
    (if r.fields.isEmpty then [] else ["", "*Bitfields*:"] ++ fields.flatMap fieldLines) ++
    ["", "---"]

def guardedLines (m : RegisterMap) (s : Setting) : Guarded (List String) := do
  let registers := m.registersByAddress
  let overview ← registers.mapM guardedOverviewRow
  let sections ← registers.mapM guardedRegisterLines
  return titleLines m s ++ (["## Overview", ""] ++
      table (["Address", "Register", "Fields"] :: overview) ++ [""]) ++
    ["## Registers"] ++ sections.flatMap ("" :: ·)

theorem guardedOverviewRow_eq (h : r.form.Safe) : guardedOverviewRow r = .ok (overviewRow r) := by
  rw [guardedOverviewRow, Register.guardedByPosition_eq h]
  rfl

theorem guardedRegisterLines_eq (h : r.form.Safe) :
    guardedRegisterLines r = .ok (registerLines r) := by
  rw [guardedRegisterLines, guardedLayoutTable_eq h, Register.guardedByPosition_eq h]
  rfl

theorem guardedLines_eq (h : ∀ r ∈ m.registers.values, r.form.Safe) (s : Setting) :
    guardedLines m s = .ok (lines m s) := by
  have hsafe (r) (hr : r ∈ m.registersByAddress) : r.form.Safe := h r (List.mem_mergeSort.1 hr)
  have hoverview : m.registersByAddress.mapM guardedOverviewRow =
      .ok (m.registersByAddress.map overviewRow) :=
    Success.mapM_eq_map fun r hr => guardedOverviewRow_eq (hsafe r hr)
  have hsections : m.registersByAddress.mapM guardedRegisterLines =
      .ok (m.registersByAddress.map registerLines) :=
    Success.mapM_eq_map fun r hr => guardedRegisterLines_eq (hsafe r hr)
  rw [guardedLines, hoverview, hsections]
  refine congrArg Except.ok ?_
  rw [lines, List.flatMap_map]
  rfl

end Datasheet

namespace DumpAnalysis

def guardedFieldLines (registerValue : Word) (f : Field) : Guarded (List String) := do
  let value ← f.bits.guardedExtract registerValue
  return (s!"  - {f.name}: {Numeral.hexUpper value}" :: f.docs.twoLine "    - ") ++
    entryLines f value

def guardedRegisterLines (r : Register) (value : Word) : Guarded (List String) := do
  let rows ← guardedLayoutTable r (some value)
  let fields ← Field.guardedByPosition r.fields
  let fieldLines ← fields.mapM (guardedFieldLines value)
  return valueLines value ++ [""] ++ table rows ++
    if r.fields.isEmpty then [] else ["", "*Bitfields*:", ""] ++ fieldLines.flatten

def guardedSectionLines (m : RegisterMap) (address value : Word) : Guarded (List String) :=
  let title (name : String) : List String := ["", s!"## {Numeral.hexUpper address} - {name}"]
  match m.registerAt address with
  | some r => (guardedRegisterLines r value).map (title r.name ++ ·)
  | none => .ok (title "?" ++ valueLines value)

def guardedLines (m : RegisterMap) (d : Dump) : Guarded (List String) := do
  let sections ← d.entries.mapM fun e => guardedSectionLines m e.1 e.2
  return s!"# {m.name} Register Dump Analysis" :: sections.flatten

theorem makes_fieldLines (h : r.form.Safe) (hf : f ∈ r.fieldsByPosition) (v : Word) :
    Makes (guardedFieldLines v f) (fieldLines v f) := by
  obtain ⟨value, hg, hx⟩ := h.makes_extract (Register.mem_fieldsByPosition_iff.1 hf) v
  rw [guardedFieldLines, fieldLines, hg, hx]
  exact ⟨_, rfl, rfl⟩

theorem makes_registerLines (h : r.form.Safe) (v : Word) :
    Makes (guardedRegisterLines r v) (registerLines r v) := by
  rw [guardedRegisterLines, registerLines, guardedLayoutTable_eq h, Register.guardedByPosition_eq h]
  exact (Makes.mapM fun f hf => makes_fieldLines h hf v).bind fun fields => ⟨_, rfl, rfl⟩

theorem makes_sectionLines (h : ∀ r ∈ m.registers.values, r.form.Safe) (address value : Word) :
    Makes (guardedSectionLines m address value) (sectionLines m address value).result := by
  unfold guardedSectionLines sectionLines
  cases hr : m.registerAt address with
  | none => exact ⟨_, rfl, rfl⟩
  | some r =>
    have hsafe := h r (List.mem_of_find?_eq_some hr)
    simp only [Logged.result_bind, Logged.result_liftM, Logged.result_pure]
    exact (makes_registerLines hsafe value).bind fun body => ⟨_, rfl, rfl⟩

theorem makes_lines (h : ∀ r ∈ m.registers.values, r.form.Safe) (d : Dump) :
    Makes (guardedLines m d) (lines m d).result := by
  simp only [guardedLines, lines, Logged.result_bind, Logged.result_report, Logged.result_mapM,
    Logged.result_pure]
  exact (Makes.mapM fun e _ => makes_sectionLines h e.1 e.2).bind fun sections => ⟨_, rfl, rfl⟩

end DumpAnalysis

end Markdown

end RegAtlas
