import RegAtlas.Proofs.BitSet.Mask
import Mathlib.Data.List.Pairwise

namespace RegAtlas

namespace BitRange

variable {r r' : BitRange} {rs : List BitRange} {n i : Nat} {v : Word}

@[simp] theorem contains_iff : r.contains i = true ↔ r.lsb ≤ i ∧ i ≤ r.msb := decide_eq_true_iff

theorem lsb_le_msb (r : BitRange) : r.lsb ≤ r.msb := by
  have := r.width_pos
  rw [msb]
  omega

theorem contains_lsb (r : BitRange) : r.contains r.lsb = true :=
  contains_iff.2 ⟨le_rfl, r.lsb_le_msb⟩

theorem contains_msb (r : BitRange) : r.contains r.msb = true :=
  contains_iff.2 ⟨r.lsb_le_msb, le_rfl⟩

def Apart (r r' : BitRange) : Prop := ∀ i, r.contains i = true → ¬r'.contains i = true

instance : Std.Symm Apart := ⟨fun _ _ h i hi hi' => h i hi' hi⟩

theorem Apart.msb_lt (h : Apart r r') (hle : r'.lsb ≤ r.lsb) : r'.msb < r.lsb := by
  by_contra hn
  exact h r.lsb r.contains_lsb (contains_iff.2 ⟨hle, not_lt.1 hn⟩)

theorem eq_of_pairwise_apart {α : Type} {f : α → BitRange} {as : List α} {a b : α}
    (h : as.Pairwise fun a b => (f a).Apart (f b)) (ha : a ∈ as) (hb : b ∈ as)
    (hi : (f a).contains i = true) (hi' : (f b).contains i = true) : a = b := by
  have hsymm : Std.Symm fun a b => (f a).Apart (f b) := ⟨fun _ _ h => Std.Symm.symm _ _ h⟩
  by_contra hne
  exact h.forall ha hb hne i hi hi'

theorem pairwise_apart_of_nodup (h : (rs.flatMap positions).Nodup) : rs.Pairwise Apart := by
  rw [List.Nodup, List.pairwise_flatMap] at h
  apply h.2.imp
  intro r r' hne i hi hi'
  rw [contains_iff, ← mem_positions] at hi hi'
  exact hne i hi i hi' rfl

theorem getLsbD_mask : r.mask.getLsbD i = (decide (i < 64) && r.contains i) := by
  have hw := r.width_pos
  rw [mask, BitVec.getLsbD_shiftLeft, Word.getLsbD_lowMask, Bool.eq_iff_iff]
  simp only [Bool.and_eq_true, Bool.not_eq_true', decide_eq_true_iff, decide_eq_false_iff_not,
    contains_iff, msb]
  omega

theorem getLsbD_extract_shift :
    (r.extract v <<< r.lsb).getLsbD i = (v.getLsbD i && r.contains i) := by
  simp only [extract, BitVec.getLsbD_shiftLeft, BitVec.getLsbD_ushiftRight, BitVec.getLsbD_and,
    getLsbD_mask]
  by_cases hi : i < 64
  · by_cases hle : r.lsb ≤ i
    · simp [hi, not_lt.2 hle, Nat.add_sub_cancel' hle]
    · simp [contains, hi, hle, not_le.1 hle]
  · simp [hi, BitVec.getLsbD_of_ge v i (not_lt.1 hi)]

theorem positions_extend {b : Nat} (h : r.lsb = b + 1) :
    positions ⟨b, r.width + 1, Nat.succ_pos _⟩ = b :: r.positions := by
  simp only [positions, List.range_succ_eq_map, List.map_cons, List.map_map, h, Nat.add_zero]
  congr 1
  apply List.map_congr_left
  intro k _
  simp only [Function.comp_apply]
  omega

/-- Ranges one below the other, from the position below `n` down to 0. -/
def Tile : List BitRange → Nat → Prop
  | [], n => n = 0
  | r :: rs, n => r.msb + 1 = n ∧ Tile rs r.lsb

theorem tile_of_cover (hdesc : rs.Pairwise fun a b => b.msb < a.lsb)
    (hcover : ∀ i, i < n ↔ ∃ r ∈ rs, r.contains i = true) : Tile rs n := by
  induction rs generalizing n with
  | nil =>
    by_contra hn
    obtain ⟨r, hr, -⟩ := (hcover 0).1 (Nat.pos_of_ne_zero hn)
    cases hr
  | cons r rs ih =>
    obtain ⟨hr, hrs⟩ := List.pairwise_cons.1 hdesc
    have hle := r.lsb_le_msb
    have htop : r.msb < n := (hcover r.msb).2 ⟨r, List.mem_cons_self, r.contains_msb⟩
    refine ⟨le_antisymm htop ?_, ih hrs fun i => ?_⟩
    · -- The highest position lies in the first range, since all others lie below it.
      obtain ⟨r', hr', hi⟩ := (hcover (n - 1)).1 (by omega)
      obtain ⟨-, hi⟩ := contains_iff.1 hi
      rcases List.mem_cons.1 hr' with rfl | hr'
      · omega
      · have := hr r' hr'
        omega
    · constructor
      · intro hi
        obtain ⟨r', hr', hin⟩ := (hcover i).1 (by omega)
        rcases List.mem_cons.1 hr' with rfl | hr'
        · exact absurd (contains_iff.1 hin).1 (not_le.2 hi)
        · exact ⟨r', hr', hin⟩
      · rintro ⟨r', hr', hin⟩
        exact (contains_iff.1 hin).2.trans_lt (hr r' hr')

theorem Tile.isChain (h : Tile rs n) : rs.IsChain fun a b => b.msb + 1 = a.lsb := by
  induction rs generalizing n with
  | nil => exact .nil
  | cons r rs ih =>
    cases rs with
    | nil => exact .singleton r
    | cons r' rs => exact .cons_cons h.2.1 (ih h.2)

theorem Tile.head (h : Tile rs n) (hn : 0 < n) : ∃ r, rs.head? = some r ∧ r.msb + 1 = n := by
  cases rs with
  | nil => exact absurd h hn.ne'
  | cons r rs => exact ⟨r, rfl, h.1⟩

theorem Tile.last (h : Tile rs n) (hn : 0 < n) : ∃ r, rs.getLast? = some r ∧ r.lsb = 0 := by
  induction rs generalizing n with
  | nil => exact absurd h hn.ne'
  | cons r rs ih =>
    cases rs with
    | nil => exact ⟨r, rfl, h.2⟩
    | cons r' rs =>
      obtain ⟨s, hs, hzero⟩ := ih h.2 (h.2.1 ▸ Nat.succ_pos _)
      exact ⟨s, by rw [List.getLast?_cons_cons, hs], hzero⟩

/-- The parts of a word that ranges hold, each in its place, taken together. -/
def gather (rs : List BitRange) (v : Word) : Word :=
  rs.foldl (fun joined r => joined ||| r.extract v <<< r.lsb) Word.zero

theorem getLsbD_gather : (gather rs v).getLsbD i = (v.getLsbD i && rs.any (·.contains i)) := by
  have fold (joined : Word) :
      (rs.foldl (fun joined r => joined ||| r.extract v <<< r.lsb) joined).getLsbD i =
        (joined.getLsbD i || v.getLsbD i && rs.any (·.contains i)) := by
    induction rs generalizing joined with
    | nil => simp
    | cons r rs ih =>
      rw [List.foldl_cons, ih, BitVec.getLsbD_or, getLsbD_extract_shift, List.any_cons,
        Bool.and_or_distrib_left, Bool.or_assoc]
  rw [gather, fold, Word.zero, BitVec.getLsbD_zero, Bool.false_or]

end BitRange

namespace BitSet

variable {s t : BitSet} {r r' range : BitRange} {i : Nat} {v w : Word}

theorem runs_flatMap_positions (ps : List Nat) : (runs ps).flatMap BitRange.positions = ps := by
  induction ps with
  | nil => rfl
  | cons b bs ih =>
    unfold runs
    cases hruns : runs bs with
    | nil =>
      rw [hruns] at ih
      simp [← ih, BitRange.positions, BitRange.single]
    | cons r rs =>
      rw [hruns, List.flatMap_cons] at ih
      dsimp only
      split
      next hlsb => rw [List.flatMap_cons, BitRange.positions_extend hlsb, List.cons_append, ih]
      next => rw [List.flatMap_cons, List.flatMap_cons, ih]; rfl

theorem mem_iff_exists_range : i ∈ s ↔ ∃ r ∈ s.ranges, r.contains i = true := by
  rw [mem_def, ← runs_flatMap_positions s.positions, List.mem_flatMap]
  simp only [ranges, BitRange.mem_positions, BitRange.contains_iff]

theorem mem_ofRanges {rs : List BitRange} : i ∈ ofRanges rs ↔ ∃ r ∈ rs, i ∈ ofRange r := by
  rw [ofRanges, mem_ofPositions, List.mem_flatMap]
  rfl

theorem apart_of_disjoint (h : ∀ i ∈ s, i ∉ t) (hr : r ∈ s.ranges) (hr' : r' ∈ t.ranges) :
    r.Apart r' := fun i hi hi' =>
  h i (mem_iff_exists_range.2 ⟨r, hr, hi⟩) (mem_iff_exists_range.2 ⟨r', hr', hi'⟩)

theorem ranges_pairwise_apart (s : BitSet) : s.ranges.Pairwise BitRange.Apart := by
  have h : s.positions.Nodup := s.ascending.imp Nat.ne_of_lt
  rw [← runs_flatMap_positions s.positions] at h
  exact BitRange.pairwise_apart_of_nodup h

theorem within_mask_of_mem_ranges (h : range ∈ s.ranges) : range.mask.within s.mask = true := by
  refine within_mask_iff.2 fun i hi => mem_iff_exists_range.2 ⟨range, h, ?_⟩
  rw [BitRange.getLsbD_mask, Bool.and_eq_true] at hi
  exact hi.2

theorem forall_extract_eq_iff :
    (∀ range ∈ s.ranges, range.extract v = range.extract w) ↔ v &&& s.mask = w &&& s.mask := by
  constructor
  · intro h
    apply BitVec.eq_of_getLsbD_eq
    intro i hi
    rw [BitVec.getLsbD_and, BitVec.getLsbD_and, getLsbD_mask, decide_eq_true hi, Bool.true_and]
    by_cases hmem : i ∈ s
    · obtain ⟨range, hrange, hcontains⟩ := mem_iff_exists_range.1 hmem
      have hbit := congrArg (fun x : Word => (x <<< range.lsb).getLsbD i) (h range hrange)
      simpa only [BitRange.getLsbD_extract_shift, hcontains, Bool.and_true,
        contains_iff.2 hmem] using hbit
    · rw [contains_eq_false hmem, Bool.and_false, Bool.and_false]
  · intro h range hrange
    have hmask : s.mask &&& range.mask = range.mask := by
      rw [BitVec.and_comm, Word.and_eq_of_within (within_mask_of_mem_ranges hrange)]
    rw [BitRange.extract, BitRange.extract, ← hmask, ← BitVec.and_assoc, h, BitVec.and_assoc]

end BitSet

end RegAtlas
