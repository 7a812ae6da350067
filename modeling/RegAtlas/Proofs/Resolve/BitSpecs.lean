import RegAtlas.Proofs.BitSet.Canonical
import RegAtlas.Proofs.Resolve.Flaws
import RegAtlas.Proofs.Resolve.RangePositions

namespace RegAtlas

namespace BitRange

variable {rs : List BitRange}

def between (m n : Nat) : BitRange := ⟨min m n, max m n + 1 - min m n, by omega⟩

theorem msb_between (m n : Nat) : (between m n).msb = max m n := by
  simp only [msb, between]
  omega

theorem msb_mem_positions (r : BitRange) : r.msb ∈ r.positions :=
  mem_positions.2 (contains_iff.1 r.contains_msb)

theorem positions_lt_iff {r : BitRange} {n : Nat} : (∀ p ∈ r.positions, p < n) ↔ r.msb < n :=
  ⟨fun h => h r.msb r.msb_mem_positions, fun h _ hp => (mem_positions.1 hp).2.trans_lt h⟩

end BitRange

namespace Listing

variable {item : BitItem} {spec : BitSpec} {r r' : BitRange} {rs rs' : List BitRange}

inductive BitItem.Denotes : BitItem → BitRange → Prop
  | bit (position : Nat) : Denotes (.bit position) (.single position)
  | range {text : String} {m n : Nat} (h : IsRangeText text m n) :
    Denotes (.range text) (.between m n)

/-- The ranges that a specification stands for, one for each component. -/
inductive BitSpec.Denotes : BitSpec → List BitRange → Prop
  | bit (position : Nat) : Denotes (.bit position) [.single position]
  | range {text : String} {m n : Nat} (h : IsRangeText text m n) :
    Denotes (.range text) [.between m n]
  | span {lsb width : Nat} (h : 0 < width) : Denotes (.span lsb width) [⟨lsb, width, h⟩]
  | list {items : List BitItem} {rs : List BitRange} (h : List.Forall₂ BitItem.Denotes items rs) :
    Denotes (.list items) rs

structure BitSpec.Accepted (spec : BitSpec) (rs : List BitRange) : Prop where
  denotes : spec.Denotes rs
  inside : ∀ p ∈ rs.flatMap BitRange.positions, p < wordSize
  once : (rs.flatMap BitRange.positions).Nodup
  given : rs.flatMap BitRange.positions ≠ []

theorem BitSpec.Accepted.msb_lt (h : spec.Accepted rs) : ∀ r ∈ rs, r.msb < wordSize :=
  fun r hr => h.inside _ (List.mem_flatMap.2 ⟨r, hr, r.msb_mem_positions⟩)

theorem BitItem.Denotes.unique (h : item.Denotes r) (h' : item.Denotes r') : r = r' := by
  cases h with
  | bit p => cases h'; rfl
  | range h =>
    cases h' with
    | range h' => obtain ⟨rfl, rfl⟩ := h.unique h'; rfl

theorem BitSpec.Denotes.unique (h : spec.Denotes rs) (h' : spec.Denotes rs') : rs = rs' := by
  cases h with
  | bit p => cases h'; rfl
  | range h =>
    cases h' with
    | range h' => obtain ⟨rfl, rfl⟩ := h.unique h'; rfl
  | span h => cases h'; rfl
  | list h =>
    cases h' with
    | list h' => exact Relator.RightUnique.forall₂ (fun _ _ _ h h' => h.unique h') h h'

end Listing

namespace Resolve

open Listing (BitItem BitSpec)

variable {place : Breadcrumb} {spec : BitSpec} {text : String} {ps : List Nat} {s : BitSet}

theorem rangePositions_ok_iff : rangePositions text place = .ok ps ↔
    ∃ m n, IsRangeText text m n ∧ max m n < wordSize ∧ ps = (BitRange.between m n).positions := by
  rw [rangePositions_ok_iff_isSpan]
  constructor
  · rintro ⟨m, n, htext, hm, hn, hps⟩
    exact ⟨m, n, htext, max_lt hm hn, hps.unique (isSpan_interval _ _)⟩
  · rintro ⟨m, n, htext, hmax, rfl⟩
    exact ⟨m, n, htext, (le_max_left m n).trans_lt hmax, (le_max_right m n).trans_lt hmax,
      isSpan_interval _ _⟩

/-- A single position is not compared with the word here, so that only those inside it count. -/
theorem itemPositions_inside_iff {item : BitItem} :
    (itemPositions place item = .ok ps ∧ ∀ p ∈ ps, p < wordSize) ↔
      ∃ r, item.Denotes r ∧ r.msb < wordSize ∧ ps = r.positions := by
  constructor
  · rintro ⟨h, hlt⟩
    cases item with
    | bit p =>
      cases h
      exact ⟨.single p, .bit p, BitRange.positions_lt_iff.1 hlt, rfl⟩
    | range text =>
      obtain ⟨m, n, htext, hmax, rfl⟩ := rangePositions_ok_iff.1 h
      exact ⟨.between m n, .range htext, BitRange.positions_lt_iff.1 hlt, rfl⟩
  · rintro ⟨r, hr, hlt, rfl⟩
    refine ⟨?_, BitRange.positions_lt_iff.2 hlt⟩
    cases hr with
    | bit p => rfl
    | range htext =>
      rw [BitRange.msb_between] at hlt
      exact rangePositions_ok_iff.2 ⟨_, _, htext, hlt, rfl⟩

theorem mapM_itemPositions_inside_iff {items : List BitItem} {cs : List (List Nat)} :
    (items.mapM (itemPositions place) = .ok cs ∧ ∀ c ∈ cs, ∀ p ∈ c, p < wordSize) ↔
      ∃ rs, List.Forall₂ BitItem.Denotes items rs ∧ (∀ r ∈ rs, r.msb < wordSize) ∧
        cs = rs.map BitRange.positions := by
  rw [Success.mapM_eq_ok]
  constructor
  · rintro ⟨h, hlt⟩
    induction h with
    | nil => exact ⟨[], .nil, nofun, rfl⟩
    | cons hitem _ ih =>
      rw [List.forall_mem_cons] at hlt
      obtain ⟨r, hr, hmsb, rfl⟩ := itemPositions_inside_iff.1 ⟨hitem, hlt.1⟩
      obtain ⟨rs, hrs, hmsbs, rfl⟩ := ih hlt.2
      exact ⟨r :: rs, .cons hr hrs, List.forall_mem_cons.2 ⟨hmsb, hmsbs⟩, rfl⟩
  · rintro ⟨rs, h, hlt, rfl⟩
    induction h with
    | nil => exact ⟨.nil, nofun⟩
    | cons hr _ ih =>
      rw [List.forall_mem_cons] at hlt
      obtain ⟨hitem, hpos⟩ := itemPositions_inside_iff.2 ⟨_, hr, hlt.1, rfl⟩
      obtain ⟨hitems, hposs⟩ := ih hlt.2
      exact ⟨.cons hitem hitems, List.forall_mem_cons.2 ⟨hpos, hposs⟩⟩

theorem components_inside_iff {cs : List (List Nat)} :
    (components place spec = .ok cs ∧ ∀ c ∈ cs, ∀ p ∈ c, p < wordSize) ↔
      ∃ rs, spec.Denotes rs ∧ (∀ r ∈ rs, r.msb < wordSize) ∧ cs = rs.map BitRange.positions := by
  constructor
  · rintro ⟨h, hlt⟩
    cases spec with
    | bit p =>
      cases h
      exact ⟨[.single p], .bit p,
        List.forall_mem_singleton.2 (BitRange.positions_lt_iff.1 (hlt _ List.mem_cons_self)), rfl⟩
    | range text =>
      obtain ⟨ps, hps, rfl⟩ := Success.map_eq_ok.1 h
      obtain ⟨m, n, htext, hmax, rfl⟩ := rangePositions_ok_iff.1 hps
      rw [← BitRange.msb_between] at hmax
      exact ⟨[.between m n], .range htext, List.forall_mem_singleton.2 hmax, rfl⟩
    | span lsb width =>
      obtain ⟨r, hr, rfl⟩ := Success.map_eq_ok.1 h
      obtain ⟨rfl, rfl, hle⟩ := BitSet.make_eq_ok_iff.1 (Success.mapError_eq_ok.1 hr)
      exact ⟨[r], .span r.width_pos,
        List.forall_mem_singleton.2 (BitRange.positions_lt_iff.1 (hlt _ List.mem_cons_self)), rfl⟩
    | list items =>
      obtain ⟨rs, hrs, hmsb, rfl⟩ := mapM_itemPositions_inside_iff.1 ⟨h, hlt⟩
      exact ⟨rs, .list hrs, hmsb, rfl⟩
  · rintro ⟨rs, hrs, hlt, rfl⟩
    refine ⟨?_, by simpa only [List.forall_mem_map, BitRange.positions_lt_iff] using hlt⟩
    cases hrs with
    | bit p => rfl
    | range htext =>
      have hmax := List.forall_mem_singleton.1 hlt
      rw [BitRange.msb_between] at hmax
      exact Success.map_eq_ok.2 ⟨_, rangePositions_ok_iff.2 ⟨_, _, htext, hmax, rfl⟩, rfl⟩
    | @span lsb width hwidth =>
      have hmsb := List.forall_mem_singleton.1 hlt
      have hle : lsb + width ≤ wordSize := by
        simp only [BitRange.msb] at hmsb
        omega
      have hmake : BitRange.make lsb width = .ok ⟨lsb, width, hwidth⟩ :=
        BitSet.make_eq_ok_iff.2 ⟨rfl, rfl, hle⟩
      exact Success.map_eq_ok.2 ⟨_, Success.mapError_eq_ok.2 hmake, rfl⟩
    | list h => exact (mapM_itemPositions_inside_iff.2 ⟨rs, h, hlt, rfl⟩).1

theorem bits_ok_iff_accepted :
    (bits spec place).result = .ok s ↔ ∃ rs, spec.Accepted rs ∧ s = .ofRanges rs := by
  rw [bits_ok_iff]
  constructor
  · rintro ⟨ps, hps, hlt, rfl⟩
    obtain ⟨cs, hcs, rfl, hnodup, hne⟩ := positions_ok_iff.1 hps
    have hinside : ∀ c ∈ cs, ∀ p ∈ c, p < wordSize :=
      fun c hc p hp => hlt p (List.mem_flatten.2 ⟨c, hc, hp⟩)
    obtain ⟨rs, hrs, -, rfl⟩ := components_inside_iff.1 ⟨hcs, hinside⟩
    rw [← List.flatMap_def] at hlt hnodup hne ⊢
    exact ⟨rs, ⟨hrs, hlt, hnodup, hne⟩, rfl⟩
  · rintro ⟨rs, hrs, rfl⟩
    obtain ⟨hcs, -⟩ := components_inside_iff.2 ⟨rs, hrs.denotes, hrs.msb_lt, rfl⟩
    exact ⟨_, positions_ok_iff.2 ⟨_, hcs, List.flatMap_def, hrs.once, hrs.given⟩, hrs.inside, rfl⟩

end Resolve

namespace Listing.BitSpec

/-- When a specification at `place` is accepted, the set that it gives, and where it is refused. -/
structure AcceptedExactly (spec : BitSpec) (place : Breadcrumb) : Prop where
  ok_iff : (∃ s, (Resolve.bits spec place).result = .ok s) ↔ ∃ rs, spec.Accepted rs
  unique : ∀ rs rs', spec.Denotes rs → spec.Denotes rs' → rs = rs'
  mem_iff : ∀ s rs, (Resolve.bits spec place).result = .ok s → spec.Denotes rs →
    ∀ p, p ∈ s ↔ p ∈ rs.flatMap BitRange.positions
  size : ∀ s rs, (Resolve.bits spec place).result = .ok s → spec.Denotes rs →
    s.size = (rs.map BitRange.width).sum
  refused : ∀ fault, (Resolve.bits spec place).result = .error fault →
    fault.kind = .range ∧ fault.place? = some (place ++ ["bits"])
  breadcrumb : place ≠ [] → Breadcrumb.text (place ++ ["bits"]) = place.text ++ " -> bits"

theorem acceptedExactly (spec : BitSpec) (place : Breadcrumb) : spec.AcceptedExactly place where
  ok_iff := by
    constructor
    · rintro ⟨s, hs⟩
      obtain ⟨rs, hrs, -⟩ := Resolve.bits_ok_iff_accepted.1 hs
      exact ⟨rs, hrs⟩
    · rintro ⟨rs, hrs⟩
      exact ⟨_, Resolve.bits_ok_iff_accepted.2 ⟨rs, hrs, rfl⟩⟩
  unique _ _ h h' := h.unique h'
  mem_iff s rs hs hrs p := by
    obtain ⟨rs', haccepted, rfl⟩ := Resolve.bits_ok_iff_accepted.1 hs
    rw [hrs.unique haccepted.denotes]
    exact BitSet.mem_ofPositions
  size s rs hs hrs := by
    obtain ⟨rs', haccepted, rfl⟩ := Resolve.bits_ok_iff_accepted.1 hs
    rw [hrs.unique haccepted.denotes]
    exact BitSet.size_ofRanges haccepted.once
  refused fault hfault := by
    have h : Resolve.Positional (place ++ ["bits"]) (Resolve.bits spec place).result :=
      Resolve.bits_positional
    rw [hfault] at h
    obtain ⟨cause, rfl, hkind, -⟩ := h
    exact ⟨hkind, rfl⟩
  breadcrumb h := Breadcrumb.text_append_singleton h "bits"

example : (Resolve.bits (.list [.range "3 - 05", .bit 0]) []).result =
    .ok (.ofPositions [0, 3, 4, 5]) := by decide

end Listing.BitSpec

end RegAtlas
