import RegAtlas.Proofs.Numeral
import RegAtlas.Proofs.Resolve.Parts
import RegAtlas.Proofs.Text
import Mathlib.Data.Nat.Digits.Defs

namespace RegAtlas

/-- Digits that write `n`, with any number of zeros before it. -/
structure IsDecimal (ds : List Char) (n : Nat) : Prop where
  nonempty : ds ≠ []
  digits : ∀ d ∈ ds, IsDigit d
  value : Nat.ofDigits 10 (ds.reverse.map fun d => d.toNat - '0'.toNat) = n

def IsPaddedDecimal (cs : List Char) (n : Nat) : Prop :=
  ∃ before ds after, cs = before ++ ds ++ after ∧ IsDecimal ds n ∧
    (∀ c ∈ before, Text.isBlank c = true) ∧ ∀ c ∈ after, Text.isBlank c = true

def IsRangeText (text : String) (m n : Nat) : Prop :=
  ∃ first second, text.toList = first ++ '-' :: second ∧ IsPaddedDecimal first m ∧
    IsPaddedDecimal second n

variable {c : Char} {cs ds : List Char} {m n : Nat} {text : String}

namespace IsDigit

theorem bounds (h : IsDigit c) : 48 ≤ c.toNat ∧ c.toNat ≤ 57 := h

theorem digit? (h : IsDigit c) : Numeral.digit? 10 c = some (c.toNat - '0'.toNat) := by
  have hlt : c.toNat - '0'.toNat < 10 := by
    have := h.bounds
    have : '0'.toNat = 48 := rfl
    omega
  have hrange : '0' ≤ c ∧ c ≤ '9' := h
  rw [Numeral.digit?, if_pos hrange, Option.filter_some, if_pos (decide_eq_true hlt)]

theorem not_blank (h : IsDigit c) : Text.isBlank c = false := by
  have := h.bounds
  rw [← Bool.not_eq_true]
  simp only [Text.isBlank, Bool.or_eq_true, Bool.and_eq_true, decide_eq_true_eq, beq_iff_eq]
  omega

theorem ne_dash (h : IsDigit c) : c ≠ '-' := by
  rintro rfl
  exact absurd h.bounds (by decide)

end IsDigit

theorem Numeral.readFrom?_digits (h : ∀ d ∈ ds, IsDigit d) : readFrom? 10 0 ds =
    some (Nat.ofDigits 10 (ds.reverse.map fun d => d.toNat - '0'.toNat)) := by
  refine readFrom?_eq_some_iff.2 ⟨ds.map fun d => d.toNat - '0'.toNat, ?_, ?_⟩
  · rw [List.forall₂_map_right_iff, List.forall₂_same]
    exact fun d hd => (h d hd).digit?
  · rw [List.map_reverse]

theorem isDecimal_iff :
    IsDecimal ds n ↔ ds.all Char.isDigit = true ∧ Numeral.read? 10 ds = some n := by
  have hall : ds.all Char.isDigit = true ↔ ∀ d ∈ ds, IsDigit d := by
    simp only [List.all_eq_true, Resolve.isDigit_iff]
  rw [hall, Numeral.read?]
  constructor
  · intro h
    rw [if_neg (by simpa using h.nonempty), Numeral.readFrom?_digits h.digits, h.value]
    exact ⟨h.digits, rfl⟩
  · rintro ⟨hdigits, hread⟩
    split at hread
    next => cases hread
    next hne =>
      rw [Numeral.readFrom?_digits hdigits] at hread
      exact ⟨by simpa using hne, hdigits, Option.some.inj hread⟩

theorem isPaddedDecimal_iff : IsPaddedDecimal cs n ↔ IsDecimal (Text.trim cs) n := by
  constructor
  · rintro ⟨before, ds, after, rfl, hds, hbefore, hafter⟩
    have htrimmed := Text.Trimmed.of_not_blank fun c hc => (hds.digits c hc).not_blank
    rwa [htrimmed.trim_padded hbefore hafter]
  · intro h
    obtain ⟨before, after, hcs, hbefore, hafter⟩ := Text.exists_trim cs
    exact ⟨before, Text.trim cs, after, hcs, h, hbefore, hafter⟩

theorem IsPaddedDecimal.no_dash (h : IsPaddedDecimal cs n) : '-' ∉ cs := by
  obtain ⟨before, ds, after, rfl, hds, hbefore, hafter⟩ := h
  have hdash : ¬Text.isBlank '-' = true := by decide
  simp only [List.mem_append, not_or]
  exact ⟨⟨fun h => hdash (hbefore _ h), fun h => (hds.digits _ h).ne_dash rfl⟩,
    fun h => hdash (hafter _ h)⟩

namespace Resolve

theorem rangeEnd?_eq_some_iff : rangeEnd? cs = some n ↔ IsPaddedDecimal cs n ∧ n ≤ maxPosition := by
  rw [isPaddedDecimal_iff, isDecimal_iff, rangeEnd?]
  split
  next hall => simp [hall]
  next hall => simp [hall]

theorem splitAtDash?_eq_some_iff {first second : List Char} :
    splitAtDash? cs = some (first, second) ↔ cs = first ++ '-' :: second ∧ '-' ∉ first := by
  induction cs generalizing first with
  | nil => simp [splitAtDash?]
  | cons c cs ih =>
    rw [splitAtDash?]
    by_cases hc : c = '-'
    · subst hc
      rw [if_pos rfl]
      constructor
      · intro h
        cases h
        exact ⟨rfl, List.not_mem_nil⟩
      · rintro ⟨h, hmem⟩
        cases first with
        | nil => cases h; rfl
        | cons d first => cases h; exact absurd List.mem_cons_self hmem
    · rw [if_neg hc]
      constructor
      · intro h
        obtain ⟨⟨first', second'⟩, hsplit, heq⟩ := Option.map_eq_some_iff.1 h
        cases heq
        obtain ⟨rfl, hmem⟩ := ih.1 hsplit
        exact ⟨rfl, List.not_mem_cons_of_ne_of_not_mem (Ne.symm hc) hmem⟩
      · rintro ⟨h, hmem⟩
        cases first with
        | nil => cases h; exact absurd rfl hc
        | cons d first =>
          cases h
          rw [ih.2 ⟨rfl, fun h => hmem (List.mem_cons_of_mem _ h)⟩]
          rfl

theorem rangeEnds?_eq_some_iff : rangeEnds? text = some (m, n) ↔
    IsRangeText text m n ∧ m ≤ maxPosition ∧ n ≤ maxPosition := by
  simp only [rangeEnds?, Option.bind_eq_some_iff, Option.map_eq_some_iff, Prod.mk.injEq,
    rangeEnd?_eq_some_iff]
  constructor
  · rintro ⟨⟨first, second⟩, hsplit, m', ⟨hm, hm'⟩, n', ⟨hn, hn'⟩, rfl, rfl⟩
    exact ⟨⟨first, second, (splitAtDash?_eq_some_iff.1 hsplit).1, hm, hn⟩, hm', hn'⟩
  · rintro ⟨⟨first, second, htext, hm, hn⟩, hm', hn'⟩
    exact ⟨(first, second), splitAtDash?_eq_some_iff.2 ⟨htext, hm.no_dash⟩, m, ⟨hm, hm'⟩, n,
      ⟨hn, hn'⟩, rfl, rfl⟩

end Resolve

theorem IsRangeText.unique {m' n' : Nat} (h : IsRangeText text m n) (h' : IsRangeText text m' n') :
    m = m' ∧ n = n' := by
  obtain ⟨first, second, htext, hm, hn⟩ := h
  obtain ⟨first', second', htext', hm', hn'⟩ := h'
  have hsplit := Resolve.splitAtDash?_eq_some_iff.2 ⟨htext, hm.no_dash⟩
  rw [Resolve.splitAtDash?_eq_some_iff.2 ⟨htext', hm'.no_dash⟩] at hsplit
  cases hsplit
  rw [isPaddedDecimal_iff] at hm hm' hn hn'
  exact ⟨hm.value.symm.trans hm'.value, hn.value.symm.trans hn'.value⟩

end RegAtlas
