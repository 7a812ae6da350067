import RegAtlas.Proofs.BitSet.Algebra
import RegAtlas.Proofs.Guarded.Basic

namespace RegAtlas.BitSet

inductive Call where
  | zero
  | span (lsb width : Nat)
  | range (r : BitRange)
  | ranges (rs : List BitRange)
  | list (ps : List Nat)
  | mask (m : Word)
  | shiftLeft (s : BitSet) (amount : Nat)
  | shiftRight (s : BitSet) (amount : Nat)
  | complement (s : BitSet) (width : Nat)
  | union (s t : BitSet)
  | inter (s t : BitSet)
  | diff (s t : BitSet)
  | unpositioned (s : BitSet)
deriving Repr, DecidableEq

namespace Call

def result : Call → Except BitError BitSet
  | zero => .ok .empty
  | span lsb width => ofSpan lsb width
  | range r => .ok (ofRange r)
  | ranges rs => .ok (ofRanges rs)
  | list ps => ofList? ps
  | mask m => .ok (ofMask m)
  | shiftLeft s amount => s.shiftLeft amount
  | shiftRight s amount => .ok (s.shiftRight amount)
  | complement s width => s.complement width
  | union s t => .ok (s.union t)
  | inter s t => .ok (s.inter t)
  | diff s t => .ok (s.diff t)
  | unpositioned s => .ok s.unpositioned

def sets : Call → List BitSet
  | shiftLeft s _ | shiftRight s _ | complement s _ | unpositioned s => [s]
  | union s t | inter s t | diff s t => [s, t]
  | _ => []

def spans : Call → List BitRange
  | range r => [r]
  | ranges rs => rs
  | _ => []

/-- Where ranges can be had from: from their ends, or from a set that has been made. -/
def Had (made : List BitSet) (r : BitRange) : Prop :=
  (∃ lsb width, BitRange.make lsb width = .ok r) ∨ ∃ s ∈ made, r ∈ s.ranges

/-- The arguments are at hand once `made` has been made. -/
def Given (made : List BitSet) (c : Call) : Prop :=
  (∀ s ∈ c.sets, s ∈ made) ∧ ∀ r ∈ c.spans, Had made r

def Confined : Call → Prop
  | complement _ width => width ≤ wordSize
  | _ => True

instance : DecidablePred Confined
  | complement _ width => inferInstanceAs (Decidable (width ≤ wordSize))
  | zero | span _ _ | range _ | ranges _ | list _ | mask _ | shiftLeft _ _ | shiftRight _ _
  | union _ _ | inter _ _ | diff _ _ | unpositioned _ => .isTrue trivial

end Call

/-- The calls of a run and the sets that they have made, the last ones first. A call that fails
makes none. -/
inductive Run : List Call → List BitSet → Prop
  | start : Run [] []
  | makes {calls : List Call} {made : List BitSet} {c : Call} {s : BitSet} (h : Run calls made)
      (given : c.Given made) (result : c.result = .ok s) : Run (c :: calls) (s :: made)
  | fails {calls : List Call} {made : List BitSet} {c : Call} {e : BitError} (h : Run calls made)
      (given : c.Given made) (result : c.result = .error e) : Run (c :: calls) made

/-- The set is one of positions of a word. It can be had back from its positions and from its mask,
and no mask takes a shift by a whole word. -/
structure Contained (s : BitSet) : Prop where
  inWord : s.InWord
  ofList? : ofList? s.positions = .ok s
  ofMask : ofMask s.mask = s
  mask : s.guardedMask = .ok s.mask
  ranges : ∀ r ∈ s.ranges, r.guardedMask = .ok r.mask

variable {calls : List Call} {made : List BitSet} {c : Call} {s t : BitSet} {r : BitRange}
  {lsb width n : Nat} {ps : List Nat}

theorem InWord.contained (h : s.InWord) : s.Contained where
  inWord := h
  ofList? := ofList?_eq_ok_iff.2 ⟨h, ext_mem fun _ => mem_ofPositions.symm⟩
  ofMask := h.ofMask_mask
  mask := guardedMask_eq h
  ranges _ hr := BitRange.guardedMask_eq (lsb_lt_of_mem_ranges h hr)

theorem msb_lt_of_make (h : BitRange.make lsb width = .ok r) : r.msb < wordSize := by
  obtain ⟨rfl, rfl, hle⟩ := make_eq_ok_iff.1 h
  have := r.width_pos
  rw [BitRange.msb]
  omega

theorem inWord_of_ofSpan (h : ofSpan lsb width = .ok s) : s.InWord := by
  obtain ⟨r, hr, rfl⟩ := Success.map_eq_ok.1 h
  exact inWord_ofRange (msb_lt_of_make hr)

theorem inWord_of_ofList? (h : ofList? ps = .ok s) : s.InWord := by
  obtain ⟨hlt, rfl⟩ := ofList?_eq_ok_iff.1 h
  exact fun i hi => hlt i (mem_ofPositions.1 hi)

theorem inWord_of_shiftLeft (h : s.shiftLeft n = .ok t) : t.InWord := by
  obtain ⟨hlt, rfl⟩ := shiftLeft_ok_iff.1 h
  exact inWord_raise hlt

theorem inWord_of_complement (h : s.complement width = .ok t) (hw : width ≤ wordSize) :
    t.InWord := by
  obtain ⟨-, rfl⟩ := complement_ok_iff.1 h
  exact fun i hi => (mem_below.1 hi).1.trans_le hw

theorem exists_complement (h : s.InWord) (hw : wordSize < width) :
    ∃ t, s.complement width = .ok t ∧ wordSize ∈ t := by
  refine ⟨_, complement_ok_iff.2 ⟨fun i hi => (h i hi).trans hw, rfl⟩, mem_below.2 ⟨hw, ?_⟩⟩
  rw [contains_eq_false fun hmem => lt_irrefl _ (h _ hmem), Bool.not_false]

theorem Call.Had.msb_lt (h : Had made r) (hmade : ∀ s ∈ made, s.InWord) : r.msb < wordSize := by
  obtain ⟨lsb, width, hr⟩ | ⟨s, hs, hr⟩ := h
  · exact msb_lt_of_make hr
  · exact hmade s hs _ (mem_iff_exists_range.2 ⟨r, hr, r.contains_msb⟩)

theorem Call.Given.inWord (hgiven : c.Given made) (hmade : ∀ s ∈ made, s.InWord)
    (hc : c.Confined) (h : c.result = .ok s) : s.InWord := by
  obtain ⟨hsets, hspans⟩ := hgiven
  have hsets (t) (ht : t ∈ c.sets) : t.InWord := hmade t (hsets t ht)
  have hspans (r) (hr : r ∈ c.spans) : (ofRange r).InWord :=
    inWord_ofRange ((hspans r hr).msb_lt hmade)
  cases c with
  | zero =>
    cases h
    exact fun i hi => absurd hi not_mem_empty
  | span lsb width => exact inWord_of_ofSpan h
  | range r =>
    cases h
    exact hspans r (List.mem_singleton.2 rfl)
  | ranges rs =>
    cases h
    intro i hi
    obtain ⟨r, hr, hi⟩ := mem_ofRanges.1 hi
    exact hspans r hr i hi
  | list ps => exact inWord_of_ofList? h
  | mask m =>
    cases h
    exact inWord_ofMask m
  | shiftLeft t n => exact inWord_of_shiftLeft h
  | shiftRight t n =>
    cases h
    exact (hsets t (List.mem_singleton.2 rfl)).shiftRight
  | complement t width => exact inWord_of_complement h hc
  | union t u =>
    cases h
    exact (hsets t (by simp [sets])).union (hsets u (by simp [sets]))
  | inter t u =>
    cases h
    exact (hsets t (by simp [sets])).inter
  | diff t u =>
    cases h
    exact (hsets t (by simp [sets])).diff
  | unpositioned t =>
    cases h
    exact (hsets t (List.mem_singleton.2 rfl)).shiftRight

theorem Call.not_confined_iff :
    ¬c.Confined ↔ ∃ s width, c = .complement s width ∧ wordSize < width := by
  cases c <;> simp [Confined]

theorem Call.Given.leaves (hgiven : c.Given made) (hmade : ∀ s ∈ made, s.InWord)
    (hc : ¬c.Confined) : ∃ t, c.result = .ok t ∧ wordSize ∈ t := by
  obtain ⟨s, width, rfl, hw⟩ := not_confined_iff.1 hc
  exact exists_complement (hmade s (hgiven.1 s (List.mem_singleton.2 rfl))) hw

theorem Run.inWord_iff (h : Run calls made) :
    (∀ s ∈ made, s.InWord) ↔ ∀ c ∈ calls, c.Confined := by
  induction h with
  | start => exact iff_of_true (List.forall_mem_nil _) (List.forall_mem_nil _)
  | makes h given result ih =>
    rw [List.forall_mem_cons, List.forall_mem_cons, ← ih]
    refine ⟨fun ⟨hs, hmade⟩ => ⟨?_, hmade⟩, fun ⟨hc, hmade⟩ => ⟨?_, hmade⟩⟩
    · by_contra hc
      obtain ⟨t, ht, hmem⟩ := given.leaves hmade hc
      cases result.symm.trans ht
      exact lt_irrefl _ (hs _ hmem)
    · exact given.inWord hmade hc result
  | fails h given result ih =>
    rw [List.forall_mem_cons, ← ih]
    refine ⟨fun hmade => ⟨?_, hmade⟩, fun ⟨_, hmade⟩ => hmade⟩
    by_contra hc
    obtain ⟨t, ht, -⟩ := given.leaves hmade hc
    cases result.symm.trans ht

/-- Whatever the calls of a run and their arguments, the sets that it makes stay inside the word
exactly if no complement is taken within more than a word. -/
theorem Run.contained_iff (h : Run calls made) :
    (∀ s ∈ made, s.Contained) ↔ ∀ c ∈ calls, c.Confined := by
  rw [← h.inWord_iff]
  exact forall₂_congr fun s _ => ⟨Contained.inWord, InWord.contained⟩

theorem top_and_rest_contained : ∃ top rest,
    Run [.shiftLeft top 1, .complement top 64, .span 60 4] [rest, top] ∧ top.size = 4 ∧
      rest.size = 60 ∧ ∀ s ∈ [rest, top], s.Contained := by
  let top := below 64 fun i => 60 ≤ i
  let rest := below 64 fun i => i < 60
  have htop : Run [.span 60 4] [top] := Run.start.makes ⟨nofun, nofun⟩ (by decide)
  have hrest : Run [.complement top 64, .span 60 4] [rest, top] :=
    htop.makes ⟨by simp [Call.sets], nofun⟩ (by decide)
  have hmoved : Run [.shiftLeft top 1, .complement top 64, .span 60 4] [rest, top] :=
    hrest.fails (e := .shiftOverflow 63 1) ⟨by simp [Call.sets], nofun⟩ (by decide)
  exact ⟨top, rest, hmoved, by decide, by decide, hmoved.contained_iff.2 (by decide)⟩

/-- Of nothing, the complement within one position more than a word has: it cannot be had back, and
its mask takes a shift by a whole word. -/
theorem complement_leaves_word : ∃ s, Run [.complement .empty 65, .zero] [s, .empty] ∧
    ¬s.InWord ∧ ofList? s.positions = .error (.positionTooLarge 64) ∧ ofMask s.mask ≠ s ∧
    s.guardedMask = .error (.shift 64) := by
  have hzero : Run [.zero] [.empty] := .makes .start ⟨nofun, nofun⟩ rfl
  refine ⟨below 65 fun _ => true, hzero.makes ⟨by simp [Call.sets], nofun⟩ rfl, ?_⟩
  decide

end RegAtlas.BitSet
