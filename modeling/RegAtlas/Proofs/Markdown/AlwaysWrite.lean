import RegAtlas.Markdown.LayoutTable
import RegAtlas.Proofs.BitLayout
import RegAtlas.Proofs.BitSet.Canonical

namespace RegAtlas

namespace Register

variable {r : Register} {aw : AlwaysWrite} {range : BitRange} {b : BitSet} {x : Word}

section

variable (haw : r.alwaysWrite = some aw)

include haw

theorem alwaysWriteValue_eq_some_iff : r.alwaysWriteValue b = some x ↔
    (∀ i ∈ b, i ∈ aw.bits) ∧ ∃ l, b.lsb = .ok l ∧ x = (aw.value &&& b.mask) >>> l := by
  rw [alwaysWriteValue, haw, Option.bind_some]
  split
  next hempty =>
    have hsubset := BitSet.isEmpty_diff_iff.1 hempty
    rw [Success.toOption_eq_some_iff, and_iff_right hsubset, BitSet.extract, Success.map_eq_ok]
    simp only [eq_comm]
  next hempty =>
    constructor
    · intro hnone
      cases hnone
    · intro h
      exact absurd (BitSet.isEmpty_diff_iff.2 h.1) hempty

theorem mem_bitLayout_alwaysWrite_iff : (range, .alwaysWrite x) ∈ r.bitLayout ↔
    range ∈ aw.bits.ranges ∧ x = range.extract aw.value := by
  rw [mem_bitLayout_iff]
  constructor
  · rintro ⟨g, hg, hrange, hx⟩
    rcases mem_groups_iff.1 hg with ⟨f, -, rfl⟩ | ⟨aw', haw', rfl⟩ | rfl
    · cases hx
    · cases haw.symm.trans haw'
      exact ⟨hrange, Segment.alwaysWrite.inj hx⟩
    · cases hx
  · rintro ⟨hrange, rfl⟩
    exact ⟨_, mem_groups_iff.2 (.inr (.inl ⟨aw, haw, rfl⟩)), hrange, rfl⟩

theorem exists_alwaysWriteValue_iff : (∃ x, r.alwaysWriteValue b = some x) ↔
    (∃ i, i ∈ b) ∧ ∀ i ∈ b, i ∈ aw.bits := by
  simp only [alwaysWriteValue_eq_some_iff haw]
  constructor
  · rintro ⟨x, hsubset, l, hl, -⟩
    exact ⟨⟨l, (BitSet.lsb_eq_ok_iff.1 hl).1⟩, hsubset⟩
  · rintro ⟨⟨i, hi⟩, hsubset⟩
    obtain ⟨l, hl⟩ := BitSet.exists_lsb_ok hi
    exact ⟨_, hsubset, l, hl, rfl⟩

theorem alwaysWriteValue_ofRange (hrange : range ∈ aw.bits.ranges) :
    r.alwaysWriteValue (.ofRange range) = some (range.extract aw.value) := by
  refine (alwaysWriteValue_eq_some_iff haw).2 ⟨fun i hi => ?_, range.lsb, ?_, ?_⟩
  · have hcontains := BitRange.contains_iff.2 (BitSet.mem_ofRange.1 hi)
    exact BitSet.mem_iff_exists_range.2 ⟨range, hrange, hcontains⟩
  · exact BitSet.lsb_ofRange range
  · rw [BitSet.mask_ofRange, BitRange.extract]

end

end Register

namespace Markdown

variable {r : Register} {aw : AlwaysWrite} {v : Word}

/-- The cell in the column of the `k`-th range of a layout, in the row that starts with `title`. -/
def cell? (rows : List Columns.Row) (title : String) (k : Nat) : Option String :=
  (rows.find? (·.head? = some title)).bind (·[k + 1]?)

theorem cell?_decode {k : Nat} {s : BitRange × Segment} (hs : r.bitLayout[k]? = some s) :
    cell? (layoutTable r (some v)) "Decode:" k = some (layoutColumn v s.1 s.2).decode := by
  simp [cell?, layoutTable, hs]

theorem cell?_decode_alwaysWrite {k : Nat} {range : BitRange} {x : Word}
    (hs : r.bitLayout[k]? = some (range, .alwaysWrite x)) :
    cell? (layoutTable r (some v)) "Decode:" k = some "OK" ↔ range.extract v = x := by
  rw [cell?_decode hs]
  simp [layoutColumn]

theorem decode_ok_iff (h : r.form.WellFormed) (haw : r.alwaysWrite = some aw) :
    (∀ k range x, r.bitLayout[k]? = some (range, .alwaysWrite x) →
      cell? (layoutTable r (some v)) "Decode:" k = some "OK") ↔ v &&& aw.bits.mask = aw.value := by
  have hvalue : aw.value &&& aw.bits.mask = aw.value :=
    Word.and_eq_of_within (BitSet.within_mask_iff.2 (h.alwaysWrite_fits aw haw))
  rw [← hvalue, ← BitSet.forall_extract_eq_iff]
  constructor
  · intro hok range hrange
    have hmem := (Register.mem_bitLayout_alwaysWrite_iff haw).2 ⟨hrange, rfl⟩
    obtain ⟨k, hk⟩ := List.mem_iff_getElem?.1 hmem
    exact (cell?_decode_alwaysWrite hk).1 (hok k _ _ hk)
  · intro hextract k range x hk
    obtain ⟨hrange, rfl⟩ :=
      (Register.mem_bitLayout_alwaysWrite_iff haw).1 (List.mem_of_getElem? hk)
    exact (cell?_decode_alwaysWrite hk).2 (hextract range hrange)

end Markdown

/-- What a register says of its always-write bits, for one range at a time and for any set of bits,
is what the bits and their value say. -/
structure Register.ExactAlwaysWrite (r : Register) (aw : AlwaysWrite) : Prop where
  decode : ∀ v : Word, (∀ k range x, r.bitLayout[k]? = some (range, .alwaysWrite x) →
      Markdown.cell? (Markdown.layoutTable r (some v)) "Decode:" k = some "OK") ↔
    v &&& aw.bits.mask = aw.value
  expected : ∀ range ∈ aw.bits.ranges, ∃ x, r.alwaysWriteValue (.ofRange range) = some x ∧
    ∀ segment, (range, segment) ∈ r.bitLayout ↔ segment = .alwaysWrite x
  defined : ∀ b, (∃ x, r.alwaysWriteValue b = some x) ↔ (∃ i, i ∈ b) ∧ ∀ i ∈ b, i ∈ aw.bits
  value : ∀ b l x, r.alwaysWriteValue b = some x → b.lsb = .ok l →
    x = (aw.value &&& b.mask) >>> l

theorem Register.ExactAlwaysWrite.of_wellFormed {r : Register} {aw : AlwaysWrite}
    (h : r.form.WellFormed) (haw : r.alwaysWrite = some aw) : r.ExactAlwaysWrite aw where
  decode _ := Markdown.decode_ok_iff h haw
  expected range hrange := ⟨range.extract aw.value, alwaysWriteValue_ofRange haw hrange,
    fun _ => mem_bitLayout_of_group h (mem_groups_iff.2 (.inr (.inl ⟨aw, haw, rfl⟩))) hrange⟩
  defined _ := exists_alwaysWriteValue_iff haw
  value b l x hx hl := by
    obtain ⟨-, l', hl', rfl⟩ := (alwaysWriteValue_eq_some_iff haw).1 hx
    rw [Except.ok.inj (hl.symm.trans hl')]

theorem RegisterMap.exactAlwaysWrite_of_build {l : Listing} {m : RegisterMap}
    (h : l.build.result = .ok m) {k : String} {r : Register} (hr : m.registers.get? k = some r)
    {aw : AlwaysWrite} (haw : r.alwaysWrite = some aw) : r.ExactAlwaysWrite aw :=
  .of_wellFormed ((RegisterMap.WellFormed.of_build h).registers k r hr) haw

def Listing.gate : Listing :=
  let control : Listing.RegisterSpec :=
    { fields := .ofList [("LEVEL", ⟨.range "3-1", none, none, none, none⟩)]
      address := some 0x10#64
      width := none
      access := none
      resetValue := none
      alwaysWrite := some ⟨.list [.range "6-4", .bit 0], .list [5#64, 1#64]⟩
      brief := none
      doc := none }
  { name := "gate"
    defaultWidth := some 8
    brief := none
    doc := none
    author := none
    note := none
    registers := .ofList [("CONTROL", .register control)]
    enums := .empty
    blocks := .empty }

theorem Listing.gate_exactAlwaysWrite : ∃ m r aw, Listing.gate.build.result = .ok m ∧
    m.registers.get? "CONTROL" = some r ∧ r.alwaysWrite = some aw ∧
    aw.bits.ranges.map BitRange.text = ["0", "6-4"] ∧ aw.value = 0x51#64 ∧
    r.ExactAlwaysWrite aw := by
  have hparts : Listing.gate.build.result.toOption.map (fun m =>
      (m.registers.get? "CONTROL").bind fun r => r.alwaysWrite.map fun aw =>
        (aw.bits.ranges.map BitRange.text, aw.value)) =
      some (some (["0", "6-4"], 0x51#64)) := by decide +kernel
  obtain ⟨m, hm, hparts⟩ := Success.exists_ok hparts
  obtain ⟨r, hr, hparts⟩ := Option.bind_eq_some_iff.1 hparts
  obtain ⟨aw, haw, hparts⟩ := Option.map_eq_some_iff.1 hparts
  obtain ⟨hranges, hvalue⟩ := Prod.mk.inj hparts
  exact ⟨m, r, aw, hm, hr, haw, hranges, hvalue, RegisterMap.exactAlwaysWrite_of_build hm hr haw⟩

end RegAtlas
