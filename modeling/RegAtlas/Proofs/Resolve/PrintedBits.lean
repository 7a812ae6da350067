import RegAtlas.Proofs.Resolve.BitSpecs

namespace RegAtlas

/-- The parts of a text between commas that a blank follows. -/
def cutItems : List Char → List (List Char)
  | [] => [[]]
  | ',' :: ' ' :: cs => [] :: cutItems cs
  | c :: cs => (cutItems cs).modifyHead (c :: ·)

def Listing.BitItem.ofText (cs : List Char) : BitItem :=
  match Numeral.read? 10 cs with
  | some n => .bit n
  | none => .range (String.ofList cs)

def Listing.BitSpec.ofText (text : String) : BitSpec :=
  .list ((cutItems text.toList).map BitItem.ofText)

/-- What is printed of the set gives the set when it is read, and no other set is printed so. -/
structure BitSet.ReadsBack (s : BitSet) : Prop where
  list : (∃ i, i ∈ s) → (∀ i ∈ s, i < wordSize) → ∀ place,
    (Resolve.bits (.ofText s.text) place).result = .ok s
  range : ∀ r, s.ranges = [r] → 2 ≤ r.width → (∀ i ∈ s, i < wordSize) → ∀ place,
    (Resolve.bits (.range s.text) place).result = .ok s
  unique : ∀ t : BitSet, t.text = s.text → t = s

section CutItems

variable {cs ds : List Char}

theorem cutItems_cons_of_ne {c : Char} (h : c ≠ ',') :
    cutItems (c :: cs) = (cutItems cs).modifyHead (c :: ·) := by
  rw [cutItems]
  exact fun _ hc _ => h hc

theorem cutItems_of_not_mem (h : ',' ∉ cs) : cutItems cs = [cs] := by
  induction cs with
  | nil => rfl
  | cons c cs ih =>
    rw [List.mem_cons, not_or] at h
    rw [cutItems_cons_of_ne (Ne.symm h.1), ih h.2, List.modifyHead_cons]

theorem cutItems_append (h : ',' ∉ cs) : cutItems (cs ++ ',' :: ' ' :: ds) = cs :: cutItems ds := by
  induction cs with
  | nil => rfl
  | cons c cs ih =>
    rw [List.mem_cons, not_or] at h
    rw [List.cons_append, cutItems_cons_of_ne (Ne.symm h.1), ih h.2, List.modifyHead_cons]

theorem cutItems_intercalate {ps : List (List Char)} (hne : ps ≠ []) (h : ∀ p ∈ ps, ',' ∉ p) :
    cutItems ([',', ' '].intercalate ps) = ps := by
  induction ps with
  | nil => exact absurd rfl hne
  | cons p ps ih =>
    rw [List.forall_mem_cons] at h
    cases ps with
    | nil => rw [List.intercalate_singleton, cutItems_of_not_mem h.1]
    | cons q ps =>
      rw [List.intercalate_cons_cons, List.append_assoc]
      exact (cutItems_append h.1).trans (congrArg _ (ih (List.cons_ne_nil _ _) h.2))

end CutItems

theorem isDecimal_toDigits (n : Nat) : IsDecimal (Nat.toDigits 10 n) n := by
  rw [isDecimal_iff, Numeral.read?, if_neg (by simp [Nat.toDigits_ne_nil])]
  refine ⟨List.all_eq_true.2 fun c => ?_, Numeral.readFrom?_lower (by decide) (by decide) n⟩
  exact Nat.isDigit_of_mem_toDigits (by decide) (by decide)

theorem IsDecimal.padded {ds : List Char} {n : Nat} (h : IsDecimal ds n) : IsPaddedDecimal ds n :=
  ⟨[], ds, [], by simp, h, nofun, nofun⟩

theorem comma_not_mem_toDigits (n : Nat) : ',' ∉ Nat.toDigits 10 n := fun h =>
  absurd ((isDecimal_toDigits n).digits _ h).bounds (by decide)

namespace BitRange

open Listing (BitItem)

variable {r : BitRange}

theorem toList_text_of_single (h : r.width = 1) : r.text.toList = Nat.toDigits 10 r.lsb := by
  change (if r.width = 1 then toString r.lsb else _).toList = _
  rw [if_pos h, Nat.toString_eq_ofList_toDigits, String.toList_ofList]

theorem toList_text_of_long (h : r.width ≠ 1) :
    r.text.toList = Nat.toDigits 10 r.msb ++ '-' :: Nat.toDigits 10 r.lsb := by
  have hdash : (toString "-").toList = ['-'] := rfl
  rw [text, if_neg h, String.toList_append, String.toList_append, hdash,
    Nat.toString_eq_ofList_toDigits, Nat.toString_eq_ofList_toDigits, String.toList_ofList,
    String.toList_ofList, List.append_assoc, List.singleton_append]

theorem isRangeText_text (h : r.width ≠ 1) : IsRangeText r.text r.msb r.lsb :=
  ⟨_, _, toList_text_of_long h, (isDecimal_toDigits _).padded, (isDecimal_toDigits _).padded⟩

theorem between_msb_lsb (r : BitRange) : between r.msb r.lsb = r := by
  have hle := r.lsb_le_msb
  obtain ⟨lsb, width, hwidth⟩ := r
  simp only [between, msb, mk.injEq] at hle ⊢
  omega

theorem single_lsb (h : r.width = 1) : single r.lsb = r := by
  obtain ⟨lsb, width, hwidth⟩ := r
  cases h
  rfl

theorem comma_not_mem_text (r : BitRange) : ',' ∉ r.text.toList := by
  by_cases h : r.width = 1
  · rw [toList_text_of_single h]
    exact comma_not_mem_toDigits _
  · rw [toList_text_of_long h]
    simp [comma_not_mem_toDigits]

theorem ofText_text_denotes (r : BitRange) : (BitItem.ofText r.text.toList).Denotes r := by
  by_cases h : r.width = 1
  · have hread : Numeral.read? 10 r.text.toList = some r.lsb := by
      rw [toList_text_of_single h]
      exact (isDecimal_iff.1 (isDecimal_toDigits r.lsb)).2
    have hdenotes := BitItem.Denotes.bit r.lsb
    rw [single_lsb h] at hdenotes
    rwa [BitItem.ofText, hread]
  · have hread : Numeral.read? 10 r.text.toList = none := by
      have hdash : Numeral.digit? 10 '-' = none := by decide
      rw [toList_text_of_long h, Numeral.read?, if_neg (by simp), Numeral.readFrom?_append]
      simp [Numeral.readFrom?, hdash]
    have hdenotes := BitItem.Denotes.range (isRangeText_text h)
    rw [between_msb_lsb] at hdenotes
    rwa [BitItem.ofText, hread, String.ofList_toList]

end BitRange

namespace BitSet

open Listing (BitItem BitSpec)

variable {s t : BitSet} {spec : BitSpec} {place : Breadcrumb}

theorem ofText_text (h : s.ranges ≠ []) :
    BitSpec.ofText s.text = .list (s.ranges.reverse.map fun r => .ofText r.text.toList) := by
  have hcut : cutItems s.text.toList = s.ranges.reverse.map fun r => r.text.toList := by
    rw [text, String.toList_intercalate, List.map_map]
    refine cutItems_intercalate (by simpa using h) fun p hp => ?_
    obtain ⟨r, -, rfl⟩ := List.mem_map.1 hp
    exact r.comma_not_mem_text
  rw [BitSpec.ofText, hcut, List.map_map]
  rfl

theorem ofText_text_denotes (h : s.ranges ≠ []) :
    (BitSpec.ofText s.text).Denotes s.ranges.reverse := by
  rw [ofText_text h]
  exact .list (List.forall₂_map_left_iff.2 (List.forall₂_same.2 fun r _ => r.ofText_text_denotes))

theorem ranges_ne_nil_iff : s.ranges ≠ [] ↔ ∃ i, i ∈ s := by
  rw [Ne, ranges_eq_nil_iff, isEmpty_iff, not_forall_not]

theorem ofRanges_reverse_ranges (s : BitSet) : ofRanges s.ranges.reverse = s :=
  unionOf_iff.1 fun i => by simpa only [List.mem_reverse] using s.unionOf_ranges i

theorem bits_of_denotes_ranges (hdenotes : spec.Denotes s.ranges.reverse) (hne : ∃ i, i ∈ s)
    (hlt : ∀ i ∈ s, i < wordSize) : (Resolve.bits spec place).result = .ok s := by
  have hperm : (s.ranges.reverse.flatMap BitRange.positions).Perm s.positions := by
    refine (s.ranges.reverse_perm.flatMap_right _).trans (.of_eq ?_)
    exact runs_flatMap_positions s.positions
  refine Resolve.bits_ok_iff_accepted.2 ⟨_, ⟨hdenotes, ?_, ?_, ?_⟩, s.ofRanges_reverse_ranges.symm⟩
  · exact fun p hp => hlt p (hperm.mem_iff.1 hp)
  · exact hperm.nodup_iff.2 (s.ascending.imp Nat.ne_of_lt)
  · obtain ⟨i, hi⟩ := hne
    exact List.ne_nil_of_mem (hperm.mem_iff.2 hi)

theorem text_eq_empty_iff : s.text = "" ↔ s.ranges = [] := by
  constructor
  · intro hempty
    by_contra h
    -- The empty text would have to be an item for a range.
    have hdenotes := ofText_text_denotes h
    rw [hempty] at hdenotes
    cases hdenotes with
    | list hitems =>
      obtain ⟨r, -, hr, -⟩ := List.forall₂_cons_left_iff.1 hitems
      cases hr with
      | range htext =>
        obtain ⟨first, second, hcs, -⟩ := htext
        simp at hcs
  · intro h
    rw [text, h]
    rfl

theorem text_injective (h : s.text = t.text) : s = t := by
  have hempty : s.ranges = [] ↔ t.ranges = [] := by
    rw [← text_eq_empty_iff, ← text_eq_empty_iff, h]
  apply ranges_injective
  by_cases hs : s.ranges = []
  · rw [hs, hempty.1 hs]
  · have hdenotes := ofText_text_denotes hs
    rw [h] at hdenotes
    exact List.reverse_injective (hdenotes.unique (ofText_text_denotes fun ht => hs (hempty.2 ht)))

theorem readsBack (s : BitSet) : s.ReadsBack where
  list hne hlt _ := bits_of_denotes_ranges (ofText_text_denotes (ranges_ne_nil_iff.2 hne)) hne hlt
  range r hr hwidth hlt _ := by
    have htext : s.text = r.text := by
      rw [text, hr]
      rfl
    have hdenotes := BitSpec.Denotes.range (BitRange.isRangeText_text (r := r) (by omega))
    rw [BitRange.between_msb_lsb, ← htext] at hdenotes
    have hne := ranges_ne_nil_iff.1 (hr ▸ List.cons_ne_nil r [])
    exact bits_of_denotes_ranges (by rwa [hr]) hne hlt
  unique _ h := text_injective h

example : (BitSet.ofPositions [1, 4, 5, 6, 7]).text = "7-4, 1" ∧
    BitSpec.ofText "7-4, 1" = .list [.range "7-4", .bit 1] := by decide +kernel

end BitSet

end RegAtlas
