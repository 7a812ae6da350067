import RegAtlas.Proofs.BitSet.Runs
import RegAtlas.Proofs.Build

namespace RegAtlas

namespace Register

variable {r : Register} {s : BitRange × Segment} {f : Field} {i : Nat}

def layoutRanges (r : Register) : List BitRange := r.bitLayout.map Prod.fst

structure Tiled (r : Register) : Prop where
  descending : r.layoutRanges.Pairwise fun a b => b.msb < a.lsb
  consecutive : r.layoutRanges.IsChain fun a b => b.msb + 1 = a.lsb
  first : ∃ top, r.layoutRanges.head? = some top ∧ top.msb + 1 = r.width
  last : ∃ bottom, r.layoutRanges.getLast? = some bottom ∧ bottom.lsb = 0
  covered : ∀ i, i < r.width → ∃! s, s ∈ r.bitLayout ∧ s.1.contains i = true
  field_iff : ∀ s ∈ r.bitLayout, ∀ i, s.1.contains i = true →
    ∀ f, s.2 = .field f ↔ r.fieldAt i = some f
  alwaysWrite_iff : ∀ s ∈ r.bitLayout, ∀ i, s.1.contains i = true →
    ((∃ v, s.2 = .alwaysWrite v) ↔ r.isAlwaysWrite i = true)
  unused_iff : ∀ s ∈ r.bitLayout, ∀ i, s.1.contains i = true →
    (s.2 = .unused ↔ i ∈ r.unusedBits false)
  gathered : ∀ v : Word, BitRange.gather r.layoutRanges v = v &&& BitVec.ofNat 64 (2 ^ r.width - 1)

/-- The sets of bits that the layout is made of, and what occupies a range of each. -/
def groups (r : Register) : List (BitSet × (BitRange → Segment)) :=
  (r.fields.values.map fun f => (f.bits, fun _ => .field f)) ++
  (r.alwaysWrite.elim [] fun aw =>
    [(aw.bits, fun range => .alwaysWrite (range.extract aw.value))]) ++
  [(r.unusedBits false, fun _ => .unused)]

theorem segments_eq : r.segments =
    r.groups.flatMap fun g => g.1.ranges.map fun range => (range, g.2 range) := by
  unfold segments groups
  cases r.alwaysWrite with
  | none => simp [List.flatMap_map]
  | some aw => simp [List.flatMap_map]

theorem mem_alwaysWrite_group {g : BitSet × (BitRange → Segment)} :
    (g ∈ r.alwaysWrite.elim [] fun aw =>
      [(aw.bits, fun range => .alwaysWrite (range.extract aw.value))]) ↔
      ∃ aw, r.alwaysWrite = some aw ∧
        g = (aw.bits, fun range => .alwaysWrite (range.extract aw.value)) := by
  cases r.alwaysWrite with
  | none => simp
  | some aw => simp

theorem mem_groups_iff {g : BitSet × (BitRange → Segment)} : g ∈ r.groups ↔
    (∃ f ∈ r.fields.values, g = (f.bits, fun _ => .field f)) ∨
    (∃ aw, r.alwaysWrite = some aw ∧
      g = (aw.bits, fun range => .alwaysWrite (range.extract aw.value))) ∨
    g = (r.unusedBits false, fun _ => .unused) := by
  rw [groups, List.mem_append, List.mem_append, mem_alwaysWrite_group, List.mem_singleton, or_assoc,
    List.mem_map]
  simp only [eq_comm]

theorem mem_bitLayout_iff : s ∈ r.bitLayout ↔
    ∃ g ∈ r.groups, s.1 ∈ g.1.ranges ∧ s.2 = g.2 s.1 := by
  rw [bitLayout, List.mem_mergeSort, segments_eq, List.mem_flatMap]
  apply exists_congr
  intro g
  apply and_congr_right
  intro _
  rw [List.mem_map]
  constructor
  · rintro ⟨range, hrange, rfl⟩
    exact ⟨hrange, rfl⟩
  · rintro ⟨hrange, hs⟩
    exact ⟨s.1, hrange, Prod.ext rfl hs.symm⟩

theorem mem_fieldBits_iff : i ∈ r.fieldBits ↔ ∃ f ∈ r.fields.values, i ∈ f.bits := by
  have fold (fs : List Field) (s : BitSet) :
      i ∈ fs.foldl (fun s f => s.union f.bits) s ↔ i ∈ s ∨ ∃ f ∈ fs, i ∈ f.bits := by
    induction fs generalizing s with
    | nil => simp
    | cons f fs ih => simp [ih, or_assoc]
  simp [fieldBits, fold]

theorem mem_unusedBits_iff : i ∈ r.unusedBits false ↔ i ∈ r.allBits ∧
    (∀ f ∈ r.fields.values, i ∉ f.bits) ∧ ∀ aw, r.alwaysWrite = some aw → i ∉ aw.bits := by
  unfold unusedBits
  cases r.alwaysWrite with
  | none => simp [mem_fieldBits_iff]
  | some aw => simp [mem_fieldBits_iff, and_assoc]

theorem isAlwaysWrite_iff :
    r.isAlwaysWrite i = true ↔ ∃ aw, r.alwaysWrite = some aw ∧ i ∈ aw.bits := by
  unfold isAlwaysWrite
  cases r.alwaysWrite with
  | none => simp
  | some aw => simp

theorem mem_allBits_iff (h : r.form.WellFormed) : i ∈ r.allBits ↔ i < r.width := by
  have hall : BitSet.ofSpan 0 r.width = .ok (.below r.width fun _ => true) :=
    BitSet.ofSpan_zero_eq_ok_iff.2 ⟨h.width_pos, h.width_le, by simp⟩
  rw [allBits, hall]
  simp [Except.toOption]

theorem fieldAt_eq_some_iff (h : r.form.WellFormed) :
    r.fieldAt i = some f ↔ f ∈ r.fields.values ∧ i ∈ f.bits := by
  unfold fieldAt
  constructor
  · intro hfind
    exact ⟨List.mem_of_find?_eq_some hfind, by simpa using List.find?_some hfind⟩
  · rintro ⟨hf, hi⟩
    cases hfind : r.fields.values.find? (·.bits.contains i) with
    | none => exact absurd hi (by simpa using List.find?_eq_none.1 hfind f hf)
    | some g =>
      have hig : i ∈ g.bits := by simpa using List.find?_some hfind
      rw [h.field_unique hf (List.mem_of_find?_eq_some hfind) hi hig]

theorem groups_cover (h : r.form.WellFormed) : i < r.width ↔ ∃ g ∈ r.groups, i ∈ g.1 := by
  constructor
  · intro hi
    by_cases hf : ∃ f ∈ r.fields.values, i ∈ f.bits
    · obtain ⟨f, hf, hi⟩ := hf
      exact ⟨_, mem_groups_iff.2 (.inl ⟨f, hf, rfl⟩), hi⟩
    by_cases haw : ∃ aw, r.alwaysWrite = some aw ∧ i ∈ aw.bits
    · obtain ⟨aw, haw, hi⟩ := haw
      exact ⟨_, mem_groups_iff.2 (.inr (.inl ⟨aw, haw, rfl⟩)), hi⟩
    · push Not at hf haw
      refine ⟨_, mem_groups_iff.2 (.inr (.inr rfl)), ?_⟩
      exact mem_unusedBits_iff.2 ⟨(mem_allBits_iff h).2 hi, hf, haw⟩
  · rintro ⟨g, hg, hi⟩
    rcases mem_groups_iff.1 hg with ⟨f, hf, rfl⟩ | ⟨aw, haw, rfl⟩ | rfl
    · exact h.bit_lt hf hi
    · exact h.alwaysWrite_inside aw haw i hi
    · exact (mem_allBits_iff h).1 (mem_unusedBits_iff.1 hi).1

theorem groups_disjoint (h : r.form.WellFormed) :
    r.groups.Pairwise fun g g' => ∀ i ∈ g.1, i ∉ g'.1 := by
  unfold groups
  refine List.pairwise_append.2
    ⟨List.pairwise_append.2 ⟨?_, ?_, ?_⟩, List.pairwise_singleton _ _, ?_⟩
  · exact List.pairwise_map.2 h.fields_pairwise
  · cases r.alwaysWrite with
    | none => exact .nil
    | some aw => exact List.pairwise_singleton _ _
  · intro g hg g' hg' i hi hi'
    obtain ⟨f, hf, rfl⟩ := List.mem_map.1 hg
    obtain ⟨aw, haw, rfl⟩ := mem_alwaysWrite_group.1 hg'
    exact h.bit_free haw hf hi' hi
  · intro g hg g' hg' i hi hi'
    cases List.mem_singleton.1 hg'
    obtain ⟨-, hfree, haw⟩ := mem_unusedBits_iff.1 hi'
    rcases List.mem_append.1 hg with hg | hg
    · obtain ⟨f, hf, rfl⟩ := List.mem_map.1 hg
      exact hfree f hf hi
    · obtain ⟨aw, h, rfl⟩ := mem_alwaysWrite_group.1 hg
      exact haw aw h hi

theorem segments_apart (h : r.form.WellFormed) :
    r.segments.Pairwise fun s s' => s.1.Apart s'.1 := by
  rw [segments_eq, List.pairwise_flatMap]
  refine ⟨fun g _ => List.pairwise_map.2 g.1.ranges_pairwise_apart, ?_⟩
  apply (groups_disjoint h).imp
  intro g g' hdisj s hs s' hs'
  obtain ⟨range, hrange, rfl⟩ := List.mem_map.1 hs
  obtain ⟨range', hrange', rfl⟩ := List.mem_map.1 hs'
  exact BitSet.apart_of_disjoint hdisj hrange hrange'

theorem bitLayout_apart (h : r.form.WellFormed) :
    r.bitLayout.Pairwise fun s s' => s.1.Apart s'.1 :=
  ((List.mergeSort_perm _ _).pairwise_iff fun h => Std.Symm.symm _ _ h).2 (segments_apart h)

theorem bitLayout_descending (h : r.form.WellFormed) :
    r.bitLayout.Pairwise fun s s' => s'.1.msb < s.1.lsb := by
  -- Ranges that lie apart and are sorted by their ends come one below the other.
  have hsorted : r.bitLayout.Pairwise fun s s' => decide (s'.1.lsb ≤ s.1.lsb) = true :=
    List.pairwise_mergeSort (by simpa using fun _ _ _ _ _ _ => le_trans') (by simp; omega) _
  exact ((bitLayout_apart h).and hsorted).imp fun hs => hs.1.msb_lt (of_decide_eq_true hs.2)

theorem bitLayout_cover (h : r.form.WellFormed) :
    i < r.width ↔ ∃ s ∈ r.bitLayout, s.1.contains i = true := by
  rw [groups_cover h]
  constructor
  · rintro ⟨g, hg, hi⟩
    obtain ⟨range, hrange, hi⟩ := BitSet.mem_iff_exists_range.1 hi
    exact ⟨(range, g.2 range), mem_bitLayout_iff.2 ⟨g, hg, hrange, rfl⟩, hi⟩
  · rintro ⟨s, hs, hi⟩
    obtain ⟨g, hg, hrange, -⟩ := mem_bitLayout_iff.1 hs
    exact ⟨g, hg, BitSet.mem_iff_exists_range.2 ⟨_, hrange, hi⟩⟩

theorem layoutRanges_cover (h : r.form.WellFormed) :
    i < r.width ↔ ∃ range ∈ r.layoutRanges, range.contains i = true := by
  rw [bitLayout_cover h]
  simp only [layoutRanges, List.mem_map, exists_exists_and_eq_and]

theorem layoutRanges_descending (h : r.form.WellFormed) :
    r.layoutRanges.Pairwise fun a b => b.msb < a.lsb :=
  List.pairwise_map.2 (bitLayout_descending h)

theorem bitLayout_unique (h : r.form.WellFormed) {s' : BitRange × Segment} (hs : s ∈ r.bitLayout)
    (hs' : s' ∈ r.bitLayout) (hi : s.1.contains i = true) (hi' : s'.1.contains i = true) :
    s = s' :=
  BitRange.eq_of_pairwise_apart (bitLayout_apart h) hs hs' hi hi'

theorem mem_bitLayout_of_group (h : r.form.WellFormed) {g : BitSet × (BitRange → Segment)}
    (hg : g ∈ r.groups) {range : BitRange} (hrange : range ∈ g.1.ranges) {segment : Segment} :
    (range, segment) ∈ r.bitLayout ↔ segment = g.2 range := by
  have hmem : (range, g.2 range) ∈ r.bitLayout := mem_bitLayout_iff.2 ⟨g, hg, hrange, rfl⟩
  constructor
  · intro hsegment
    have hlsb := range.contains_lsb
    exact congrArg Prod.snd (bitLayout_unique h hsegment hmem hlsb hlsb)
  · rintro rfl
    exact hmem

theorem segment_cases (hs : s ∈ r.bitLayout) (hi : s.1.contains i = true) :
    (∃ f ∈ r.fields.values, i ∈ f.bits ∧ s.2 = .field f) ∨
    (∃ aw, r.alwaysWrite = some aw ∧ i ∈ aw.bits ∧
      s.2 = .alwaysWrite (s.1.extract aw.value)) ∨
    (i ∈ r.unusedBits false ∧ s.2 = .unused) := by
  obtain ⟨g, hg, hrange, hkind⟩ := mem_bitLayout_iff.1 hs
  have hi := BitSet.mem_iff_exists_range.2 ⟨s.1, hrange, hi⟩
  rcases mem_groups_iff.1 hg with ⟨f, hf, rfl⟩ | ⟨aw, haw, rfl⟩ | rfl
  · exact .inl ⟨f, hf, hi, hkind⟩
  · exact .inr (.inl ⟨aw, haw, hi, hkind⟩)
  · exact .inr (.inr ⟨hi, hkind⟩)

theorem segment_field_iff (h : r.form.WellFormed) (hs : s ∈ r.bitLayout)
    (hi : s.1.contains i = true) : s.2 = .field f ↔ r.fieldAt i = some f := by
  rw [fieldAt_eq_some_iff h]
  rcases segment_cases hs hi with ⟨g, hg, hig, hkind⟩ | ⟨aw, haw, hiaw, hkind⟩ | ⟨hiu, hkind⟩
  · rw [hkind, Segment.field.injEq]
    constructor
    · rintro rfl
      exact ⟨hg, hig⟩
    · rintro ⟨hf, hif⟩
      exact h.field_unique hg hf hig hif
  · rw [hkind]
    refine ⟨nofun, fun ⟨hf, hif⟩ => ?_⟩
    exact absurd hif (h.bit_free haw hf hiaw)
  · rw [hkind]
    exact ⟨nofun, fun ⟨hf, hif⟩ => absurd hif ((mem_unusedBits_iff.1 hiu).2.1 f hf)⟩

theorem segment_alwaysWrite_iff (h : r.form.WellFormed) (hs : s ∈ r.bitLayout)
    (hi : s.1.contains i = true) :
    (∃ v, s.2 = .alwaysWrite v) ↔ r.isAlwaysWrite i = true := by
  rw [isAlwaysWrite_iff]
  rcases segment_cases hs hi with ⟨f, hf, hif, hkind⟩ | ⟨aw, haw, hiaw, hkind⟩ | ⟨hiu, hkind⟩
  · rw [hkind]
    refine ⟨nofun, fun ⟨aw, haw, hiaw⟩ => ?_⟩
    exact absurd hif (h.bit_free haw hf hiaw)
  · exact ⟨fun _ => ⟨aw, haw, hiaw⟩, fun _ => ⟨_, hkind⟩⟩
  · rw [hkind]
    refine ⟨nofun, fun ⟨aw, haw, hiaw⟩ => ?_⟩
    exact absurd hiaw ((mem_unusedBits_iff.1 hiu).2.2 aw haw)

theorem segment_unused_iff (hs : s ∈ r.bitLayout) (hi : s.1.contains i = true) :
    s.2 = .unused ↔ i ∈ r.unusedBits false := by
  rcases segment_cases hs hi with ⟨f, hf, hif, hkind⟩ | ⟨aw, haw, hiaw, hkind⟩ | ⟨hiu, hkind⟩
  · rw [hkind]
    exact ⟨nofun, fun hiu => absurd hif ((mem_unusedBits_iff.1 hiu).2.1 f hf)⟩
  · rw [hkind]
    exact ⟨nofun, fun hiu => absurd hiaw ((mem_unusedBits_iff.1 hiu).2.2 aw haw)⟩
  · exact ⟨fun _ => hiu, fun _ => hkind⟩

theorem gather_layoutRanges (h : r.form.WellFormed) (v : Word) :
    BitRange.gather r.layoutRanges v = v &&& BitVec.ofNat 64 (2 ^ r.width - 1) := by
  apply BitVec.eq_of_getLsbD_eq
  intro i hi
  have hany : r.layoutRanges.any (·.contains i) = decide (i < r.width) := by
    rw [Bool.eq_iff_iff, decide_eq_true_iff, List.any_eq_true, layoutRanges_cover h]
  rw [BitRange.getLsbD_gather, hany, BitVec.getLsbD_and, BitVec.getLsbD_ofNat,
    Nat.testBit_two_pow_sub_one, decide_eq_true hi, Bool.true_and]

theorem Tiled.of_wellFormed (h : r.form.WellFormed) : r.Tiled := by
  have htile : BitRange.Tile r.layoutRanges r.width :=
    BitRange.tile_of_cover (layoutRanges_descending h) fun i => layoutRanges_cover h
  have hpos : 0 < r.width := h.width_pos
  exact {
    descending := layoutRanges_descending h
    consecutive := htile.isChain
    first := htile.head hpos
    last := htile.last hpos
    covered := fun i hi => by
      obtain ⟨s, hs, hin⟩ := (bitLayout_cover h).1 hi
      exact ⟨s, ⟨hs, hin⟩, fun s' hs' => bitLayout_unique h hs'.1 hs hs'.2 hin⟩
    field_iff := fun s hs i hi f => segment_field_iff h hs hi
    alwaysWrite_iff := fun s hs i hi => segment_alwaysWrite_iff h hs hi
    unused_iff := fun s hs i hi => segment_unused_iff hs hi
    gathered := gather_layoutRanges h }

end Register

/-- The layout of every register of a built map tiles the register. -/
theorem RegisterMap.tiled_of_build {l : Listing} {m : RegisterMap} (h : l.build.result = .ok m)
    {k : String} {r : Register} (hr : m.registers.get? k = some r) : r.Tiled :=
  .of_wellFormed ((RegisterMap.WellFormed.of_build h).registers k r hr)

theorem Listing.chip_status_tiled : ∃ m r, Listing.chip.build.result = .ok m ∧
    m.registers.get? "STATUS" = some r ∧
    r.segments.map (·.1.text) = ["3-1", "0", "5-4", "7", "6"] ∧ r.Tiled := by
  have hparts : Listing.chip.build.result.toOption.map (fun m =>
      (m.registers.get? "STATUS").map fun r => r.segments.map (·.1.text)) =
      some (some ["3-1", "0", "5-4", "7", "6"]) := by decide +kernel
  obtain ⟨m, hm, hparts⟩ := Success.exists_ok hparts
  obtain ⟨r, hr, hparts⟩ := Option.map_eq_some_iff.1 hparts
  exact ⟨m, r, hm, hr, hparts, RegisterMap.tiled_of_build hm hr⟩

end RegAtlas
