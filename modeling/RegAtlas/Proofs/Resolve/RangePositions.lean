import RegAtlas.Proofs.Resolve.RangeText
import Mathlib.Data.List.Sort

namespace RegAtlas

variable {text : String} {place : Breadcrumb} {first last m n : Nat} {ps qs : List Nat}

structure IsSpan (first last : Nat) (ps : List Nat) : Prop where
  ascending : ps.Pairwise (· < ·)
  mem_iff : ∀ p, p ∈ ps ↔ first ≤ p ∧ p ≤ last

theorem IsSpan.unique (h : IsSpan first last ps) (h' : IsSpan first last qs) : ps = qs :=
  h.ascending.eq_of_mem_iff h'.ascending fun p => (h.mem_iff p).trans (h'.mem_iff p).symm

theorem IsRangeText.count_dash (h : IsRangeText text m n) : text.toList.count '-' = 1 := by
  -- Both parts of a range are without dashes.
  obtain ⟨before, behind, htext, hm, hn⟩ := h
  rw [htext, List.count_append, List.count_cons_self, List.count_eq_zero.2 hm.no_dash,
    List.count_eq_zero.2 hn.no_dash]

namespace Resolve

theorem isSpan_interval (first last : Nat) : IsSpan first last (interval first last) where
  ascending := List.Pairwise.map _ (fun _ _ h => Nat.add_lt_add_left h _) List.pairwise_lt_range
  mem_iff p := by
    simp only [interval, List.mem_map, List.mem_range]
    constructor
    · rintro ⟨k, hk, rfl⟩
      omega
    · intro h
      exact ⟨p - first, by omega, by omega⟩

theorem lt_two_pow_iff_le_maxPosition : n < 2 ^ 32 ↔ n ≤ maxPosition := by
  have hmax : maxPosition + 1 = 2 ^ 32 := by decide
  rw [← hmax, Nat.lt_succ_iff]

/-- What comes of a text as a range. -/
inductive RangeOutcome (text : String) (place : Breadcrumb) : Except Fault (List Nat) → Prop
  | positions {m n : Nat} {ps : List Nat} (h : IsRangeText text m n) (hm : m < wordSize)
    (hn : n < wordSize) (hps : IsSpan (min m n) (max m n) ps) : RangeOutcome text place (.ok ps)
  | tooLarge {m n : Nat} (h : IsRangeText text m n) (hm : m < 2 ^ 32) (hn : n < 2 ^ 32)
    (hmax : wordSize ≤ max m n) :
    RangeOutcome text place (.error (.located place (.bit (.positionTooLarge (max m n)))))
  | invalid (h : ∀ m n, IsRangeText text m n → ¬(m < 2 ^ 32 ∧ n < 2 ^ 32)) :
    RangeOutcome text place (.error (.located place (.notABitRange text)))

theorem RangeOutcome.unique {r r' : Except Fault (List Nat)} (h : RangeOutcome text place r)
    (h' : RangeOutcome text place r') : r = r' := by
  have hword : wordSize < 2 ^ 32 := by decide
  cases h with
  | positions h hm hn hps =>
    cases h' with
    | positions h' _ _ hqs =>
      obtain ⟨rfl, rfl⟩ := h.unique h'
      rw [hps.unique hqs]
    | tooLarge h' _ _ hmax =>
      obtain ⟨rfl, rfl⟩ := h.unique h'
      omega
    | invalid h' => exact absurd ⟨hm.trans hword, hn.trans hword⟩ (h' _ _ h)
  | tooLarge h hm hn hmax =>
    cases h' with
    | positions h' =>
      obtain ⟨rfl, rfl⟩ := h.unique h'
      omega
    | tooLarge h' =>
      obtain ⟨rfl, rfl⟩ := h.unique h'
      rfl
    | invalid h' => exact absurd ⟨hm, hn⟩ (h' _ _ h)
  | invalid h =>
    cases h' with
    | positions h' hm hn => exact absurd ⟨hm.trans hword, hn.trans hword⟩ (h _ _ h')
    | tooLarge h' hm hn => exact absurd ⟨hm, hn⟩ (h _ _ h')
    | invalid => rfl

theorem rangePositions_outcome (text : String) (place : Breadcrumb) :
    RangeOutcome text place (rangePositions text place) := by
  unfold rangePositions
  split
  next hnone =>
    refine .invalid fun m n h hlt => ?_
    have hends := rangeEnds?_eq_some_iff.2
      ⟨h, lt_two_pow_iff_le_maxPosition.1 hlt.1, lt_two_pow_iff_le_maxPosition.1 hlt.2⟩
    exact absurd hends (by simp [hnone])
  next m n hsome =>
    obtain ⟨h, hm, hn⟩ := rangeEnds?_eq_some_iff.1 hsome
    split
    next hmax =>
      exact .tooLarge h (lt_two_pow_iff_le_maxPosition.2 hm) (lt_two_pow_iff_le_maxPosition.2 hn)
        hmax
    next hmax => exact .positions h (by omega) (by omega) (isSpan_interval _ _)

theorem rangePositions_eq_iff {r : Except Fault (List Nat)} :
    rangePositions text place = r ↔ RangeOutcome text place r :=
  ⟨fun h => h ▸ rangePositions_outcome text place, (rangePositions_outcome text place).unique⟩

/-- The texts that are ranges, what they give, and what is wrong with the others. -/
structure RangeReadExactly (text : String) (place : Breadcrumb) : Prop where
  accepted : (∃ ps, rangePositions text place = .ok ps) ↔
    ∃ m n, IsRangeText text m n ∧ m < wordSize ∧ n < wordSize
  ok_iff : ∀ ps, rangePositions text place = .ok ps ↔
    ∃ m n, IsRangeText text m n ∧ m < wordSize ∧ n < wordSize ∧ IsSpan (min m n) (max m n) ps
  tooLarge_iff : ∀ p,
    rangePositions text place = .error (.located place (.bit (.positionTooLarge p))) ↔
      ∃ m n, IsRangeText text m n ∧ m < 2 ^ 32 ∧ n < 2 ^ 32 ∧ wordSize ≤ max m n ∧ p = max m n
  invalid_iff : rangePositions text place = .error (.located place (.notABitRange text)) ↔
    ¬∃ m n, IsRangeText text m n ∧ m < 2 ^ 32 ∧ n < 2 ^ 32
  unique : ∀ m n m' n', IsRangeText text m n → IsRangeText text m' n' → m = m' ∧ n = n'
  oneDash : ∀ m n, IsRangeText text m n → text.toList.count '-' = 1

theorem rangePositions_ok_iff_isSpan : rangePositions text place = .ok ps ↔
    ∃ m n, IsRangeText text m n ∧ m < wordSize ∧ n < wordSize ∧
      IsSpan (min m n) (max m n) ps := by
  rw [rangePositions_eq_iff]
  constructor
  · rintro ⟨h, hm, hn, hps⟩
    exact ⟨_, _, h, hm, hn, hps⟩
  · rintro ⟨m, n, h, hm, hn, hps⟩
    exact .positions h hm hn hps

theorem rangeReadExactly (text : String) (place : Breadcrumb) : RangeReadExactly text place where
  accepted := by
    constructor
    · rintro ⟨ps, hps⟩
      obtain ⟨m, n, h, hm, hn, -⟩ := rangePositions_ok_iff_isSpan.1 hps
      exact ⟨m, n, h, hm, hn⟩
    · rintro ⟨m, n, h, hm, hn⟩
      exact ⟨_, rangePositions_ok_iff_isSpan.2 ⟨m, n, h, hm, hn, isSpan_interval _ _⟩⟩
  ok_iff _ := rangePositions_ok_iff_isSpan
  tooLarge_iff p := by
    rw [rangePositions_eq_iff]
    constructor
    · rintro ⟨⟩
      next h hm hn hmax => exact ⟨_, _, h, hm, hn, hmax, rfl⟩
    · rintro ⟨m, n, h, hm, hn, hmax, rfl⟩
      exact .tooLarge h hm hn hmax
  invalid_iff := by
    rw [rangePositions_eq_iff]
    constructor
    · rintro ⟨⟩
      next h =>
        rintro ⟨m, n, htext, hlt⟩
        exact h m n htext hlt
    · intro h
      exact .invalid fun m n htext hlt => h ⟨m, n, htext, hlt⟩
  unique _ _ _ _ h h' := h.unique h'
  oneDash _ _ h := h.count_dash

example : rangePositions "\t05 -\u00a03" [] = .ok [3, 4, 5] ∧
    rangePositions "64-4294967295" [] =
      .error (.located [] (.bit (.positionTooLarge 4294967295))) ∧
    rangePositions "0-4294967296" [] = .error (.located [] (.notABitRange "0-4294967296")) ∧
    rangePositions "+1-2" [] = .error (.located [] (.notABitRange "+1-2")) := by decide +kernel

end Resolve

end RegAtlas
