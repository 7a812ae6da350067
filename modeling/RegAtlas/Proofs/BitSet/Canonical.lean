import RegAtlas.Proofs.BitSet.Runs
import Mathlib.Data.List.Chain
import Mathlib.Data.List.Perm.Subperm

namespace RegAtlas

namespace BitRange

/-- There is a position above the first range and below the second one. -/
def GapBelow (r r' : BitRange) : Prop := r.msb + 1 < r'.lsb

instance : Trans GapBelow GapBelow GapBelow where
  trans {_ r' _} h h' := by
    have := r'.lsb_le_msb
    simp only [GapBelow] at *
    omega

theorem length_positions (r : BitRange) : r.positions.length = r.width := by
  rw [positions, List.length_map, List.length_range]

theorem lsb_mem_positions (r : BitRange) : r.lsb ∈ r.positions :=
  mem_positions.2 (contains_iff.1 r.contains_lsb)

end BitRange

namespace BitSet

variable {s : BitSet} {r : BitRange} {rs : List BitRange} {ps : List Nat} {i l m : Nat}

/-- The members are the positions of the ranges, which may overlap, repeat and come in any order. -/
def UnionOf (s : BitSet) (rs : List BitRange) : Prop := ∀ i, i ∈ s ↔ ∃ r ∈ rs, r.contains i = true

/-- Ascending ranges with gaps between them that list the members in order. -/
structure Canonical (s : BitSet) (rs : List BitRange) : Prop where
  ascending : rs.Pairwise fun a b => a.msb < b.lsb
  gaps : rs.IsChain fun a b => a.msb + 1 < b.lsb
  width_pos : ∀ r ∈ rs, 1 ≤ r.width
  positions : rs.flatMap BitRange.positions = s.positions

theorem runs_gaps (h : ps.Pairwise (· < ·)) : (runs ps).IsChain BitRange.GapBelow := by
  induction ps with
  | nil => exact .nil
  | cons b bs ih =>
    obtain ⟨hb, hbs⟩ := List.pairwise_cons.1 h
    have hchain := ih hbs
    have hflat := runs_flatMap_positions bs
    unfold runs
    cases hruns : runs bs with
    | nil => exact .singleton _
    | cons r rs =>
      rw [hruns] at hchain hflat
      have hlt : b < r.lsb := by
        apply hb
        rw [← hflat, List.flatMap_cons]
        exact List.mem_append_left _ r.lsb_mem_positions
      dsimp only
      split
      next hlsb =>
        -- The longer run ends where `r` does.
        rw [List.isChain_cons] at hchain ⊢
        refine ⟨fun r' hr' => ?_, hchain.2⟩
        have hgap := hchain.1 r' hr'
        simp only [BitRange.GapBelow, BitRange.msb] at hgap ⊢
        omega
      next hlsb =>
        refine List.isChain_cons_cons.2 ⟨?_, hchain⟩
        simp only [BitRange.GapBelow, BitRange.msb, BitRange.single]
        omega

theorem runs_append (r : BitRange) (h : ∀ r' ∈ (runs ps).head?, r.GapBelow r') :
    runs (r.positions ++ ps) = r :: runs ps := by
  obtain ⟨lsb, width, hpos⟩ := r
  induction width generalizing lsb with
  | zero => cases hpos
  | succ w ih =>
    by_cases hw : w = 0
    · subst hw
      have hsingle : runs (lsb :: ps) = .single lsb :: runs ps := by
        rw [runs]
        cases hruns : runs ps with
        | nil => rfl
        | cons r' rs =>
          rw [hruns] at h
          have hgap : lsb + 1 < r'.lsb := h r' rfl
          dsimp only
          rw [if_neg (by omega)]
      exact hsingle
    · let rest : BitRange := ⟨lsb + 1, w, Nat.pos_of_ne_zero hw⟩
      have hrest : runs (rest.positions ++ ps) = rest :: runs ps := by
        apply ih (lsb + 1) rest.width_pos
        intro r' hr'
        have hgap := h r' hr'
        simp only [BitRange.GapBelow, BitRange.msb] at hgap ⊢
        omega
      have hlsb : rest.lsb = lsb + 1 := rfl
      rw [BitRange.positions_extend hlsb, List.cons_append, runs, hrest]
      dsimp only
      rw [if_pos hlsb]

theorem runs_eq_of_gaps (h : rs.IsChain BitRange.GapBelow) :
    runs (rs.flatMap BitRange.positions) = rs := by
  induction rs with
  | nil => rfl
  | cons r rs ih =>
    obtain ⟨hhead, hrs⟩ := List.isChain_cons.1 h
    have hruns := ih hrs
    rw [List.flatMap_cons, runs_append r (by rwa [hruns]), hruns]

theorem ranges_pairwise_gapBelow (s : BitSet) : s.ranges.Pairwise BitRange.GapBelow :=
  (runs_gaps s.ascending).pairwise

theorem canonical_ranges (s : BitSet) : s.Canonical s.ranges where
  ascending := s.ranges_pairwise_gapBelow.imp Nat.lt_of_succ_lt
  gaps := runs_gaps s.ascending
  width_pos r _ := r.width_pos
  positions := runs_flatMap_positions s.positions

theorem canonical_iff : s.Canonical rs ↔ rs = s.ranges := by
  constructor
  · intro h
    rw [ranges, ← h.positions]
    exact (runs_eq_of_gaps h.gaps).symm
  · rintro rfl
    exact s.canonical_ranges

theorem unionOf_ranges (s : BitSet) : s.UnionOf s.ranges := fun _ => mem_iff_exists_range

theorem unionOf_iff : s.UnionOf rs ↔ ofRanges rs = s := by
  have hmem (i : Nat) : i ∈ ofRanges rs ↔ ∃ r ∈ rs, r.contains i = true := by
    simp only [mem_ofRanges, mem_ofRange, BitRange.contains_iff]
  constructor
  · intro h
    exact ext_mem fun i => (hmem i).trans (h i).symm
  · rintro rfl
    exact hmem

theorem ranges_injective {t : BitSet} (h : s.ranges = t.ranges) : s = t := by
  have hunion := s.unionOf_ranges
  rw [h] at hunion
  exact (unionOf_iff.1 hunion).symm.trans (unionOf_iff.1 t.unionOf_ranges)

theorem pred_lsb_not_mem (hr : r ∈ s.ranges) (hi : i + 1 = r.lsb) : i ∉ s := by
  intro hmem
  obtain ⟨r', hr', hcontains⟩ := mem_iff_exists_range.1 hmem
  rw [BitRange.contains_iff] at hcontains
  have hne : r' ≠ r := by
    rintro rfl
    omega
  have hsymm : Std.Symm fun a b : BitRange => a.GapBelow b ∨ b.GapBelow a := ⟨fun _ _ => Or.symm⟩
  have hgap := (s.ranges_pairwise_gapBelow.imp fun {a b} h => Or.inl (b := b.GapBelow a) h).forall
    hr' hr hne
  have := r.lsb_le_msb
  simp only [BitRange.GapBelow] at hgap
  omega

theorem UnionOf.lsb_mem (h : s.UnionOf rs) (hr : r ∈ s.ranges) :
    r.lsb ∈ rs.map BitRange.lsb := by
  obtain ⟨r', hr', hcontains⟩ := (h r.lsb).1 (mem_iff_exists_range.2 ⟨r, hr, r.contains_lsb⟩)
  rw [BitRange.contains_iff] at hcontains
  refine List.mem_map.2 ⟨r', hr', ?_⟩
  by_contra hne
  have hbelow : r'.contains (r.lsb - 1) = true := by
    rw [BitRange.contains_iff]
    omega
  refine pred_lsb_not_mem hr (i := r.lsb - 1) (by omega) ?_
  exact (h (r.lsb - 1)).2 ⟨r', hr', hbelow⟩

theorem UnionOf.length_le (h : s.UnionOf rs) : s.ranges.length ≤ rs.length := by
  have hnodup : (s.ranges.map BitRange.lsb).Nodup := by
    apply List.pairwise_map.2
    apply s.ranges_pairwise_gapBelow.imp
    intro a b hgap
    have := a.lsb_le_msb
    simp only [BitRange.GapBelow] at hgap
    omega
  have hsubset : s.ranges.map BitRange.lsb ⊆ rs.map BitRange.lsb := by
    intro n hn
    obtain ⟨r, hr, rfl⟩ := List.mem_map.1 hn
    exact h.lsb_mem hr
  simpa only [List.length_map] using (List.subperm_of_subset hnodup hsubset).length_le

theorem isContiguous_iff : s.isContiguous = true ↔ ∃ r, s.ranges = [r] := by
  rw [isContiguous, beq_iff_eq, List.length_eq_one_iff]

theorem ranges_eq_singleton_iff : s.ranges = [r] ↔ s = ofRange r := by
  have hone : (ofRange r).Canonical [r] := {
    ascending := List.pairwise_singleton _ _
    gaps := .singleton r
    width_pos := List.forall_mem_singleton.2 r.width_pos
    positions := List.flatMap_singleton _ _ }
  rw [canonical_iff.1 hone]
  exact ⟨ranges_injective, fun h => by rw [h]⟩

theorem range_ok_iff : s.range = .ok r ↔ s.ranges = [r] := by
  unfold range
  split
  next r' hr' => rw [hr', Except.ok.injEq, List.cons.injEq, and_iff_left rfl]
  next hnil => simp [hnil]
  next hr' _ => exact ⟨nofun, fun h => absurd h (hr' r)⟩

theorem ranges_eq_nil_iff : s.ranges = [] ↔ s.isEmpty = true := by
  rw [isEmpty_iff]
  constructor
  · intro h i hi
    obtain ⟨r, hr, -⟩ := mem_iff_exists_range.1 hi
    rw [h] at hr
    cases hr
  · intro h
    apply List.eq_nil_iff_forall_not_mem.2
    intro r hr
    exact h r.lsb (mem_iff_exists_range.2 ⟨r, hr, r.contains_lsb⟩)

theorem size_ofRange (r : BitRange) : (ofRange r).size = r.width := r.length_positions

theorem size_ofRanges (h : (rs.flatMap BitRange.positions).Nodup) :
    (ofRanges rs).size = (rs.map BitRange.width).sum := by
  have hperm : (ofRanges rs).positions.Perm (rs.flatMap BitRange.positions) :=
    (List.perm_ext_iff_of_nodup ((ofRanges rs).ascending.imp Nat.ne_of_lt) h).2
      fun i => mem_ofPositions
  rw [size, hperm.length_eq, List.length_flatMap]
  simp only [BitRange.length_positions]

theorem lsb?_ofRange (r : BitRange) : (ofRange r).lsb? = some r.lsb :=
  lsb?_eq_some_iff.2 ⟨mem_ofRange.2 ⟨le_rfl, r.lsb_le_msb⟩, fun _ hj => (mem_ofRange.1 hj).1⟩

theorem lsb_ofRange (r : BitRange) : (ofRange r).lsb = .ok r.lsb :=
  lsb_eq_ok_iff.2 (lsb?_eq_some_iff.1 (lsb?_ofRange r))

theorem mask_ofRange (r : BitRange) : (ofRange r).mask = r.mask := by
  apply BitVec.eq_of_getLsbD_eq
  intro i hi
  rw [getLsbD_mask, BitRange.getLsbD_mask, Bool.eq_iff_iff]
  simp only [Bool.and_eq_true, contains_iff, mem_ofRange, BitRange.contains_iff]

theorem spanWidth_ofRange (r : BitRange) : (ofRange r).spanWidth = r.width := by
  have hmsb : (ofRange r).msb? = some r.msb :=
    msb?_eq_some_iff.2 ⟨mem_ofRange.2 ⟨r.lsb_le_msb, le_rfl⟩, fun _ hj => (mem_ofRange.1 hj).2⟩
  have := r.width_pos
  rw [spanWidth, lsb?_ofRange, hmsb]
  simp only [BitRange.msb]
  omega

theorem exists_eq_ofRange (hi : i ∈ s) (h : s.spanWidth = s.size) : ∃ r, s = ofRange r := by
  obtain ⟨l, m, hl, hm, hspan⟩ := exists_ends hi
  have hle := (lsb?_eq_some_iff.1 hl).2
  have hge := (msb?_eq_some_iff.1 hm).2
  let r : BitRange := ⟨l, s.spanWidth, spanWidth_pos hi⟩
  have hsubset : s.positions ⊆ r.positions := by
    intro j hj
    have := hle j hj
    have := hge j hj
    rw [BitRange.mem_positions, BitRange.msb]
    simp only [r]
    omega
  have hlength : r.positions.length ≤ s.positions.length := by
    rw [r.length_positions]
    exact h.le
  have hperm := (List.subperm_of_subset (s.ascending.imp Nat.ne_of_lt) hsubset).perm_of_length_le
    hlength
  exact ⟨r, ext_mem fun j => hperm.mem_iff⟩

theorem isContiguous_iff_span :
    s.isContiguous = true ↔ s.isEmpty = false ∧ s.spanWidth = s.size := by
  simp only [isContiguous_iff, ranges_eq_singleton_iff]
  constructor
  · rintro ⟨r, rfl⟩
    refine ⟨?_, by rw [spanWidth_ofRange, size_ofRange]⟩
    rw [← Bool.not_eq_true, isEmpty_iff]
    exact fun h => h r.lsb r.lsb_mem_positions
  · rintro ⟨hne, hspan⟩
    rw [← Bool.not_eq_true, isEmpty_iff, not_forall] at hne
    obtain ⟨i, hi⟩ := hne
    exact exists_eq_ofRange (not_not.1 hi) hspan

theorem range_of_not_contiguous (h : s.isContiguous = false) : s.range =
    .error (if s.isEmpty then .emptySet else .notContiguous s.mask) := by
  rw [← Bool.not_eq_true, isContiguous_iff] at h
  unfold range
  split
  next r hr => exact absurd ⟨r, hr⟩ h
  next hnil => rw [ranges_eq_nil_iff.1 hnil, if_pos rfl]
  next hnil => rw [if_neg fun hempty => hnil (ranges_eq_nil_iff.2 hempty)]

/-- What the ranges of a set are among all lists of ranges, and when there is one only. -/
structure DecomposedByRanges (s : BitSet) : Prop where
  canonical : ∀ rs, s.Canonical rs ↔ rs = s.ranges
  shortest : ∀ rs, s.UnionOf rs → s.ranges.length ≤ rs.length
  restored : ofRanges s.ranges = s
  merged : ∀ rs, s.UnionOf rs ↔ (ofRanges rs).ranges = s.ranges
  range_ok : ∀ r, s.range = .ok r ↔ s = ofRange r
  contiguous : (∃ r, s.range = .ok r) ↔ s.isContiguous = true
  contiguous_iff : s.isContiguous = true ↔ s.isEmpty = false ∧ s.spanWidth = s.size
  range_empty : s.range = .error .emptySet ↔ s.isEmpty = true
  range_error : s.isEmpty = false → s.isContiguous = false →
    s.range = .error (.notContiguous s.mask)

/-- The ranges of a set are its canonical decomposition. -/
theorem decomposedByRanges (s : BitSet) : s.DecomposedByRanges where
  canonical _ := canonical_iff
  shortest _ h := h.length_le
  restored := unionOf_iff.1 s.unionOf_ranges
  merged rs := by
    rw [unionOf_iff]
    exact ⟨fun h => by rw [h], ranges_injective⟩
  range_ok _ := range_ok_iff.trans ranges_eq_singleton_iff
  contiguous := by simp only [range_ok_iff, isContiguous_iff]
  contiguous_iff := isContiguous_iff_span
  range_empty := by
    cases hc : s.isContiguous with
    | true =>
      obtain ⟨r, hr⟩ := isContiguous_iff.1 hc
      rw [range_ok_iff.2 hr, (isContiguous_iff_span.1 hc).1]
      exact ⟨nofun, nofun⟩
    | false =>
      rw [range_of_not_contiguous hc]
      cases s.isEmpty <;> simp
  range_error hne hc := by rw [range_of_not_contiguous hc, hne]; rfl

example : (ofRanges [⟨4, 2, by decide⟩, .single 9, ⟨2, 2, by decide⟩, ⟨5, 2, by decide⟩]).ranges =
    [⟨2, 5, by decide⟩, .single 9] := by decide

end BitSet

end RegAtlas
