import RegAtlas.Proofs.BitSet.Extract
import RegAtlas.Proofs.Check.WellFormed
import RegAtlas.Proofs.Resolve.BitSpecs

namespace RegAtlas

namespace BitRange

/-- Words put together, each moved up to its range. -/
def join (parts : List (BitRange × Word)) : Word :=
  parts.foldr (fun p joined => p.2 <<< p.1.lsb ||| joined) Word.zero

variable {r : BitRange} {x : Word} {parts : List (BitRange × Word)} {i : Nat}

theorem places_ofRange (h : x.toNat < 2 ^ r.width) : (BitSet.ofRange r).Places r.lsb x := by
  intro i hi
  have := Word.lt_two_pow_iff.1 h i hi
  rw [BitSet.mem_ofRange_iff]
  omega

theorem contains_of_getLsbD (h : x.toNat < 2 ^ r.width) (hi : (x <<< r.lsb).getLsbD i = true) :
    r.contains i = true :=
  contains_iff.2 (BitSet.mem_ofRange.1 ((places_ofRange h).mem_of_getLsbD hi))

theorem getLsbD_join :
    (join parts).getLsbD i = true ↔ ∃ p ∈ parts, (p.2 <<< p.1.lsb).getLsbD i = true := by
  induction parts with
  | nil => simp [join, Word.zero]
  | cons p parts ih =>
    simp only [List.mem_cons, exists_eq_or_imp, ← ih]
    rw [join, List.foldr_cons, BitVec.getLsbD_or, Bool.or_eq_true]
    rfl

variable (hfit : ∀ p ∈ parts, p.2.toNat < 2 ^ p.1.width)

include hfit

theorem exists_contains_of_getLsbD_join (h : (join parts).getLsbD i = true) :
    ∃ p ∈ parts, p.1.contains i = true := by
  obtain ⟨p, hp, hi⟩ := getLsbD_join.1 h
  exact ⟨p, hp, contains_of_getLsbD (hfit p hp) hi⟩

theorem extract_join (hapart : parts.Pairwise fun p q => p.1.Apart q.1) {p : BitRange × Word}
    (hp : p ∈ parts) (hlt : p.1.msb < wordSize) : p.1.extract (join parts) = p.2 := by
  have hmask : join parts &&& p.1.mask = p.2 <<< p.1.lsb := by
    apply BitVec.eq_of_getLsbD_eq
    intro i hi
    rw [BitVec.getLsbD_and, getLsbD_mask, decide_eq_true hi, Bool.true_and, Bool.eq_iff_iff,
      Bool.and_eq_true, getLsbD_join]
    constructor
    · -- The position belongs to the range of `p`, so that no other part has a one there.
      rintro ⟨⟨q, hq, hbit⟩, hcontains⟩
      have hother := contains_of_getLsbD (hfit q hq) hbit
      rwa [← eq_of_pairwise_apart hapart hq hp hother hcontains]
    · intro hbit
      exact ⟨⟨p, hp, hbit⟩, contains_of_getLsbD (hfit p hp) hbit⟩
  have hplaces := places_ofRange (hfit p hp)
  rw [extract, hmask, hplaces.shiftRight_shiftLeft (BitSet.inWord_ofRange hlt)]

end BitRange

namespace Resolve

open Listing (BitItem BitSpec)

variable {place : Breadcrumb} {item : BitItem} {items : List BitItem} {r : BitRange}
  {rs : List BitRange} {x w : Word} {values : List Word}

theorem ofList?_positions (hlt : r.msb < wordSize) :
    BitSet.ofList? r.positions = .ok (.ofRange r) := by
  apply BitSet.ofList?_eq_ok_iff.2
  exact ⟨BitRange.positions_lt_iff.2 hlt, BitSet.ext_mem fun _ => BitSet.mem_ofPositions.symm⟩

theorem placedValue_eq (hr : item.Denotes r) (hlt : r.msb < wordSize) :
    placedValue place item x = if x.fits r.width then .ok (x <<< r.lsb)
      else refuse place (.componentTooWide x (.ofRange r)) := by
  have hitem : itemPositions place item = .ok r.positions :=
    (itemPositions_inside_iff.2 ⟨r, hr, hlt, rfl⟩).1
  unfold placedValue
  rw [hitem]
  change (atPlace place (BitSet.ofList? r.positions)).bind _ = _
  rw [ofList?_positions hlt]
  change (if x.fits (BitSet.ofRange r).spanWidth then _ else _) = _
  rw [BitSet.spanWidth_ofRange, BitSet.lsb_ofRange]
  rfl

theorem joinValues_ok_iff (h : List.Forall₂ BitItem.Denotes items rs)
    (hlt : ∀ r ∈ rs, r.msb < wordSize) {joined : Word} :
    joinValues place (items.zip values) joined = .ok w ↔
      (∀ p ∈ rs.zip values, p.2.toNat < 2 ^ p.1.width) ∧
        w = joined ||| BitRange.join (rs.zip values) := by
  induction h generalizing values joined with
  | nil => simp [joinValues, BitRange.join, Word.zero, eq_comm]
  | @cons item r items rs hr _ ih =>
    cases values with
    | nil => simp [joinValues, BitRange.join, Word.zero, eq_comm]
    | cons x values =>
      rw [List.forall_mem_cons] at hlt
      rw [List.zip_cons_cons, List.zip_cons_cons, List.forall_mem_cons, ← Word.fits_iff]
      unfold joinValues
      refine Success.bind_eq_ok.trans ?_
      rw [placedValue_eq hr hlt.1]
      by_cases hfit : x.fits r.width = true
      · rw [if_pos hfit]
        have hjoin : (joined ||| x <<< r.lsb) ||| BitRange.join (rs.zip values) =
            joined ||| BitRange.join ((r, x) :: rs.zip values) := BitVec.or_assoc _ _ _
        simp only [Except.ok.injEq, exists_eq_left', ih hlt.2, hjoin, hfit, true_and]
      · rw [if_neg hfit]
        constructor
        · rintro ⟨placed, hplaced, -⟩
          cases hplaced
        · intro h
          exact absurd h.1.1 hfit

theorem alwaysWrite_lists_ok_iff {found : Option AlwaysWrite} :
    (alwaysWrite (some ⟨.list items, .list values⟩) place).result = .ok found ↔
      ∃ rs, (BitSpec.list items).Accepted rs ∧ items.length = values.length ∧
        (∀ p ∈ rs.zip values, p.2.toNat < 2 ^ p.1.width) ∧
        found = some ⟨.ofRanges rs, BitRange.join (rs.zip values)⟩ := by
  simp only [alwaysWrite_some_ok_iff, bits_ok_iff_accepted, writtenValue]
  constructor
  · rintro ⟨s, ⟨rs, hrs, rfl⟩, w, hw, rfl⟩
    split at hw
    next hlength =>
      cases hrs.denotes with
      | list hitems =>
        obtain ⟨hfit, rfl⟩ := (joinValues_ok_iff hitems hrs.msb_lt).1 hw
        exact ⟨rs, hrs, hlength, hfit, by rw [Word.zero, BitVec.zero_or]⟩
    next => cases hw
  · rintro ⟨rs, hrs, hlength, hfit, rfl⟩
    refine ⟨_, ⟨rs, hrs, rfl⟩, _, ?_, rfl⟩
    rw [if_pos hlength]
    cases hrs.denotes with
    | list hitems =>
      refine (joinValues_ok_iff hitems hrs.msb_lt).2 ⟨hfit, ?_⟩
      rw [Word.zero, BitVec.zero_or]

end Resolve

/-- The value has each of the given values in its range, and no bit outside of the ranges. -/
structure AlwaysWrite.Encodes (aw : AlwaysWrite) (rs : List BitRange) (values : List Word) :
    Prop where
  bits : aw.bits.UnionOf rs
  inside : aw.value &&& ~~~aw.bits.mask = 0#64
  parts : rs.map (fun r => (aw.value &&& r.mask) >>> r.lsb) = values

theorem Listing.BitSpec.Accepted.encodes_join {items : List BitItem} {rs : List BitRange}
    {values : List Word} (h : (BitSpec.list items).Accepted rs)
    (hlength : items.length = values.length)
    (hfit : ∀ p ∈ rs.zip values, p.2.toNat < 2 ^ p.1.width) :
    AlwaysWrite.Encodes ⟨.ofRanges rs, BitRange.join (rs.zip values)⟩ rs values where
  bits := BitSet.unionOf_iff.2 rfl
  inside := by
    refine Word.within_eq_true_iff.1 (BitSet.within_mask_iff.2 fun i hi => ?_)
    obtain ⟨p, hp, hcontains⟩ := BitRange.exists_contains_of_getLsbD_join hfit hi
    exact (BitSet.unionOf_iff.2 rfl i).2 ⟨p.1, (List.of_mem_zip hp).1, hcontains⟩
  parts := by
    have hlength : rs.length = values.length := by
      cases h.denotes with
      | list hitems => rw [← hitems.length_eq, hlength]
    have hapart : (rs.zip values).Pairwise fun p q => p.1.Apart q.1 := by
      apply List.pairwise_map.1
      rw [List.map_fst_zip hlength.le]
      exact BitRange.pairwise_apart_of_nodup h.once
    have hparts : List.Forall₂ (fun r x => r.extract (BitRange.join (rs.zip values)) = x)
        rs values := by
      refine List.forall₂_iff_zip.2 ⟨hlength, fun {r x} hp => ?_⟩
      have hr := (List.of_mem_zip hp).1
      exact BitRange.extract_join (p := (r, x)) hfit hapart hp (h.msb_lt r hr)
    rwa [← List.forall₂_map_left_iff, List.forall₂_eq_eq_eq] at hparts

namespace Listing

/-- When lists of bits and of values are accepted as an always-write value, and what that is. -/
structure EncodedWithoutLoss (items : List BitItem) (values : List Word) (place : Breadcrumb) :
    Prop where
  ok_iff : (∃ found, (Resolve.alwaysWrite (some ⟨.list items, .list values⟩) place).result =
      .ok found) ↔
    (∃ s, (Resolve.bits (.list items) (place ++ ["always_write"])).result = .ok s) ∧
      items.length = values.length ∧
      ∀ rs, (BitSpec.list items).Denotes rs → ∀ p ∈ rs.zip values, p.2.toNat < 2 ^ p.1.width
  encodes : ∀ found,
    (Resolve.alwaysWrite (some ⟨.list items, .list values⟩) place).result = .ok found →
      ∃ aw rs, found = some aw ∧
        (Resolve.bits (.list items) (place ++ ["always_write"])).result = .ok aw.bits ∧
        (BitSpec.list items).Denotes rs ∧ aw.Encodes rs values
  valid : ∀ aw,
    (Resolve.alwaysWrite (some ⟨.list items, .list values⟩) place).result = .ok (some aw) →
      ∀ there all width fs other v m, (Check.alwaysWrite there all width fs aw).result ≠
        .error (.located other (.alwaysWriteOutsideMask v m))

theorem encodedWithoutLoss (items : List BitItem) (values : List Word) (place : Breadcrumb) :
    EncodedWithoutLoss items values place where
  ok_iff := by
    constructor
    · rintro ⟨found, hfound⟩
      obtain ⟨rs, hrs, hlength, hfit, -⟩ := Resolve.alwaysWrite_lists_ok_iff.1 hfound
      refine ⟨⟨_, Resolve.bits_ok_iff_accepted.2 ⟨rs, hrs, rfl⟩⟩, hlength, fun rs' hrs' => ?_⟩
      rwa [hrs'.unique hrs.denotes]
    · rintro ⟨⟨s, hs⟩, hlength, hfit⟩
      obtain ⟨rs, hrs, -⟩ := Resolve.bits_ok_iff_accepted.1 hs
      exact ⟨_, Resolve.alwaysWrite_lists_ok_iff.2 ⟨rs, hrs, hlength, hfit rs hrs.denotes, rfl⟩⟩
  encodes found h := by
    obtain ⟨rs, hrs, hlength, hfit, rfl⟩ := Resolve.alwaysWrite_lists_ok_iff.1 h
    exact ⟨_, rs, rfl, Resolve.bits_ok_iff_accepted.2 ⟨rs, hrs, rfl⟩, hrs.denotes,
      hrs.encodes_join hlength hfit⟩
  valid aw h there all width fs other v m herror := by
    obtain ⟨rs, hrs, hlength, hfit, heq⟩ := Resolve.alwaysWrite_lists_ok_iff.1 h
    have hwithin := Word.within_eq_true_iff.2 (hrs.encodes_join hlength hfit).inside
    rw [← Option.some.inj heq] at hwithin
    have houtcome := @Check.alwaysWrite_within there all width fs aw hwithin
    rw [herror] at houtcome
    exact houtcome other v m rfl

example : (Resolve.alwaysWrite (some ⟨.list [.range "9-8", .bit 63, .bit 0], .list [2, 1, 0]⟩)
    []).result = .ok (some ⟨.ofPositions [0, 8, 9, 63], 0x8000000000000200⟩) := by decide

end Listing

end RegAtlas
