import RegAtlas.Dump.Number
import RegAtlas.Proofs.Numeral
import RegAtlas.Proofs.Text

namespace RegAtlas

open Numeral (IsNumeral)

namespace Dump

/-- A numeral of `base` behind `lead`, with a plus sign between them or without. -/
def IsLed (lead : List Char) (base : Nat) (cs : List Char) (n : Nat) : Prop :=
  ∃ ds, (cs = lead ++ ds ∨ cs = lead ++ '+' :: ds) ∧ IsNumeral base ds n

/-- A number in lower case and without underscores. Its prefix decides on the base. -/
inductive IsNumber (cs : List Char) (n : Nat) : Prop
  | hexadecimal (h : IsLed ['0', 'x'] 16 cs n)
  | binary (h : IsLed ['0', 'b'] 2 cs n)
  | decimal (hx : ¬['0', 'x'] <+: cs) (hb : ¬['0', 'b'] <+: cs) (h : IsLed [] 10 cs n)

inductive Renders (n : Nat) : List Char → Prop
  | hexadecimal (zeros : Nat) :
    Renders n ('0' :: 'x' :: (List.replicate zeros '0' ++ Nat.toDigits 16 n))
  | binary (zeros : Nat) :
    Renders n ('0' :: 'b' :: (List.replicate zeros '0' ++ Nat.toDigits 2 n))
  | decimal (zeros : Nat) : Renders n (List.replicate zeros '0' ++ Nat.toDigits 10 n)

/-- A text is read as the number that it is without the blanks around it and its underscores, in
lower case. -/
structure ReadsNumber (s : String) : Prop where
  exact : ∀ n, (number? s).map BitVec.toNat = some n ↔ n < 2 ^ 64 ∧
    ∃ core, Text.TrimsTo s.toList core ∧ IsNumber ((core.filter (· != '_')).map Char.toLower) n
  recovers : ∀ w : Word, Renders w.toNat ((s.toList.filter (· != '_')).map Char.toLower) →
    number? s = some w

end Dump

variable {base n : Nat} {c : Char} {cs ds : List Char}

namespace Numeral

theorem toNat_digitChar {v : Nat} (h : v < 16) :
    (Nat.digitChar v).toNat = if v < 10 then 48 + v else 87 + v := by
  interval_cases v <;> rfl

theorem digit?_eq_some_iff (hle : base ≤ 16) (hc : c.toLower = c) {v : Nat} :
    digit? base c = some v ↔ v < base ∧ Nat.digitChar v = c := by
  constructor
  · intro h
    have hv := lt_of_digit? h
    refine ⟨hv, Char.toNat_inj.1 ?_⟩
    have hvalue := (Option.filter_eq_some_iff.1 h).1
    have hlower := toNat_toLower c
    rw [hc] at hlower
    have h0 : '0'.toNat = 48 := rfl
    have ha : 'a'.toNat = 97 := rfl
    have hA : 'A'.toNat = 65 := rfl
    rw [toNat_digitChar (hv.trans_le hle)]
    split_ifs at hvalue with hdigit hsmall hcapital
    · have hbounds : 48 ≤ c.toNat ∧ c.toNat ≤ 57 := hdigit
      rw [Option.some.injEq] at hvalue
      rw [if_pos (by omega)]
      omega
    · have hbounds : 97 ≤ c.toNat ∧ c.toNat ≤ 102 := hsmall
      rw [Option.some.injEq] at hvalue
      rw [if_neg (by omega)]
      omega
    · have hbounds : 65 ≤ c.toNat ∧ c.toNat ≤ 70 := hcapital
      rw [if_pos (by omega)] at hlower
      omega
  · rintro ⟨hv, rfl⟩
    exact digit?_digitChar hle hv

theorem forall₂_digit?_iff (hle : base ≤ 16) (hlower : ∀ d ∈ ds, d.toLower = d) {vs : List Nat} :
    List.Forall₂ (fun d v => digit? base d = some v) ds vs ↔
      (∀ v ∈ vs, v < base) ∧ vs.map Nat.digitChar = ds := by
  induction ds generalizing vs with
  | nil => cases vs <;> simp
  | cons d ds ih =>
    obtain ⟨hd, hds⟩ := List.forall_mem_cons.1 hlower
    cases vs with
    | nil => simp
    | cons v vs =>
      rw [List.forall₂_cons, digit?_eq_some_iff hle hd, ih hds, List.forall_mem_cons,
        List.map_cons, List.cons.injEq]
      exact and_and_and_comm

theorem isNumeral_iff (hle : base ≤ 16) (hlower : ∀ d ∈ ds, d.toLower = d) :
    IsNumeral base ds n ↔ read? base ds = some n := by
  have hread : read? base ds = some n ↔ ds ≠ [] ∧ readFrom? base 0 ds = some n := by
    cases ds <;> simp [read?]
  simp only [hread, readFrom?_eq_some_iff, forall₂_digit?_iff hle hlower, IsNumeral]
  constructor
  · rintro ⟨vs, hne, hvs, rfl, hn⟩
    exact ⟨by simpa using hne, vs, ⟨hvs, rfl⟩, hn⟩
  · rintro ⟨hne, vs, ⟨hvs, rfl⟩, hn⟩
    exact ⟨vs, by simpa using hne, hvs, rfl, hn⟩

theorem IsNumeral.head_ne_plus : ¬IsNumeral base ('+' :: ds) n := by
  rintro ⟨_ | ⟨v, vs⟩, hne, -, hdigits, -⟩
  · exact hne rfl
  · exact Nat.digitChar_ne '+' rfl (List.cons.inj hdigits).1

theorem readPlus?_eq_some_iff (hle : base ≤ 16) (hlower : ∀ c ∈ cs, c.toLower = c) :
    readPlus? base cs = some n ↔ ∃ ds, (cs = ds ∨ cs = '+' :: ds) ∧ IsNumeral base ds n := by
  fun_cases readPlus? base cs with
  | case1 ds =>
    rw [← isNumeral_iff hle fun d hd => hlower d (List.mem_cons_of_mem _ hd)]
    constructor
    · exact fun h => ⟨ds, .inr rfl, h⟩
    · rintro ⟨ds', rfl | heq, h⟩
      · exact absurd h IsNumeral.head_ne_plus
      · cases heq
        exact h
  | case2 cs hplus =>
    rw [← isNumeral_iff hle hlower]
    constructor
    · exact fun h => ⟨cs, .inl rfl, h⟩
    · rintro ⟨ds, rfl | rfl, h⟩
      · exact h
      · exact absurd rfl (hplus ds)

theorem word?_eq_some_iff (hle : base ≤ 16) (hlower : ∀ c ∈ cs, c.toLower = c) :
    (word? base cs).map BitVec.toNat = some n ↔
      n < 2 ^ 64 ∧ ∃ ds, (cs = ds ∨ cs = '+' :: ds) ∧ IsNumeral base ds n := by
  have hword (m : Nat) : (Word.ofNat? m).map BitVec.toNat = some n ↔ n < 2 ^ 64 ∧ m = n := by
    unfold Word.ofNat? wordSize
    split
    next h =>
      rw [Option.map_some, BitVec.toNat_ofNat, Nat.mod_eq_of_lt (by simpa using h),
        Option.some.injEq]
      constructor
      · rintro rfl
        exact ⟨by simpa using h, rfl⟩
      · exact And.right
    next h =>
      simp only [Option.map_none, reduceCtorEq, false_iff, not_and]
      rintro hn rfl
      exact h (by simpa using hn)
  rw [← readPlus?_eq_some_iff hle hlower, word?]
  cases readPlus? base cs with
  | none => simp
  | some m => rw [Option.bind_some, hword, Option.some.injEq]

theorem IsNumeral.zeros (h : IsNumeral base ds n) (hpos : 0 < base) (zeros : Nat) :
    IsNumeral base (List.replicate zeros '0' ++ ds) n := by
  induction zeros with
  | zero => exact h
  | succ zeros ih =>
    obtain ⟨vs, -, hvs, hdigits, hn⟩ := ih
    refine ⟨0 :: vs, List.cons_ne_nil _ _, List.forall_mem_cons.2 ⟨hpos, hvs⟩, ?_, ?_⟩
    · rw [List.map_cons, hdigits]
      rfl
    · rw [Nat.ofDigits_reverse_zero_cons, hn]

theorem IsNumeral.exists_digitChar (h : IsNumeral base ds n) {d : Char} (hd : d ∈ ds) :
    ∃ v < base, Nat.digitChar v = d := by
  obtain ⟨vs, -, hvs, rfl, -⟩ := h
  obtain ⟨v, hv, rfl⟩ := List.mem_map.1 hd
  exact ⟨v, hvs v hv, rfl⟩

theorem IsNumeral.not_blank (h : IsNumeral base ds n) (hle : base ≤ 16) :
    ∀ d ∈ ds, Text.isBlank d = false := by
  intro d hd
  have hdigits : ∀ v : Fin 16, Text.isBlank (Nat.digitChar v) = false := by decide
  obtain ⟨v, hv, rfl⟩ := h.exists_digitChar hd
  exact hdigits ⟨v, hv.trans_le hle⟩

end Numeral

namespace Text

theorem isBlank_toLower (c : Char) : isBlank c.toLower = isBlank c := by
  have hlower := toNat_toLower c
  split_ifs at hlower with h
  · rw [Bool.eq_iff_iff]
    simp only [isBlank, Bool.or_eq_true, Bool.and_eq_true, decide_eq_true_eq, beq_iff_eq]
    omega
  · rw [Char.toNat_inj.1 hlower]

end Text

namespace Dump

theorem isLed_iff (lead : List Char) : IsLed lead base (lead ++ cs) n ↔
    ∃ ds, (cs = ds ∨ cs = '+' :: ds) ∧ IsNumeral base ds n := by
  simp only [IsLed, List.append_cancel_left_eq]

theorem IsLed.isPrefix {lead : List Char} (h : IsLed lead base cs n) : lead <+: cs := by
  obtain ⟨ds, rfl | rfl, -⟩ := h
  · exact List.prefix_append _ _
  · exact List.prefix_append _ _

theorem isNumber_hexadecimal_iff : IsNumber ('0' :: 'x' :: cs) n ↔
    ∃ ds, (cs = ds ∨ cs = '+' :: ds) ∧ IsNumeral 16 ds n := by
  rw [← isLed_iff ['0', 'x']]
  constructor
  · intro h
    cases h with
    | hexadecimal h => exact h
    | binary h => exact absurd h.isPrefix (by simp)
    | decimal hx => exact absurd (List.prefix_append ['0', 'x'] cs) hx
  · exact .hexadecimal

theorem isNumber_binary_iff : IsNumber ('0' :: 'b' :: cs) n ↔
    ∃ ds, (cs = ds ∨ cs = '+' :: ds) ∧ IsNumeral 2 ds n := by
  rw [← isLed_iff ['0', 'b']]
  constructor
  · intro h
    cases h with
    | hexadecimal h => exact absurd h.isPrefix (by simp)
    | binary h => exact h
    | decimal _ hb => exact absurd (List.prefix_append ['0', 'b'] cs) hb
  · exact .binary

theorem isNumber_decimal_iff (hx : ¬['0', 'x'] <+: cs) (hb : ¬['0', 'b'] <+: cs) :
    IsNumber cs n ↔ ∃ ds, (cs = ds ∨ cs = '+' :: ds) ∧ IsNumeral 10 ds n := by
  rw [← isLed_iff [], List.nil_append]
  constructor
  · intro h
    cases h with
    | hexadecimal h => exact absurd h.isPrefix hx
    | binary h => exact absurd h.isPrefix hb
    | decimal _ _ h => exact h
  · exact .decimal hx hb

theorem readNormal?_eq_some_iff (hlower : ∀ c ∈ cs, c.toLower = c) :
    (readNormal? cs).map BitVec.toNat = some n ↔ n < 2 ^ 64 ∧ IsNumber cs n := by
  fun_cases readNormal? cs with
  | case1 cs =>
    rw [isNumber_hexadecimal_iff]
    exact Numeral.word?_eq_some_iff (by decide) fun c hc => hlower c (by simp [hc])
  | case2 cs =>
    rw [isNumber_binary_iff]
    exact Numeral.word?_eq_some_iff (by decide) fun c hc => hlower c (by simp [hc])
  | case3 cs hx hb =>
    rw [isNumber_decimal_iff]
    · exact Numeral.word?_eq_some_iff (by decide) hlower
    · rintro ⟨rest, rfl⟩
      exact hx rest rfl
    · rintro ⟨rest, rfl⟩
      exact hb rest rfl

theorem number?_eq_some_iff_isNumber {s : String} : (number? s).map BitVec.toNat = some n ↔
    n < 2 ^ 64 ∧ ∃ core, Text.TrimsTo s.toList core ∧
      IsNumber ((core.filter (· != '_')).map Char.toLower) n := by
  rw [number?, readNormal?_eq_some_iff, normalNumber]
  · simp only [Text.trimsTo_iff, exists_eq_left']
  · rw [normalNumber]
    exact List.forall_mem_map.2 fun c _ => toLower_toLower c

theorem IsNumber.of_isNumeral (h : IsNumeral 10 cs n) : IsNumber cs n := by
  -- Neither prefix of another base is made of decimal digits.
  refine .decimal (fun hx => ?_) (fun hb => ?_) ⟨cs, .inl rfl, h⟩
  · obtain ⟨v, -, hv⟩ := h.exists_digitChar (d := 'x') (hx.subset (by simp))
    exact Nat.digitChar_ne 'x' rfl hv
  · obtain ⟨v, hlt, hv⟩ := h.exists_digitChar (d := 'b') (hb.subset (by simp))
    rw [Nat.digitChar_eq_b] at hv
    omega

theorem Renders.isNumber (h : Renders n cs) : IsNumber cs n ∧ ∀ c ∈ cs, Text.isBlank c = false := by
  have hdigits (base zeros : Nat) (hbase : 1 < base) :
      IsNumeral base (List.replicate zeros '0' ++ Nat.toDigits base n) n :=
    (Numeral.isNumeral_toDigits hbase n).zeros (by omega) zeros
  cases h with
  | hexadecimal zeros =>
    have h := hdigits 16 zeros (by decide)
    refine ⟨isNumber_hexadecimal_iff.2 ⟨_, .inl rfl, h⟩, ?_⟩
    exact List.forall_mem_cons.2 ⟨rfl, List.forall_mem_cons.2 ⟨rfl, h.not_blank (by decide)⟩⟩
  | binary zeros =>
    have h := hdigits 2 zeros (by decide)
    refine ⟨isNumber_binary_iff.2 ⟨_, .inl rfl, h⟩, ?_⟩
    exact List.forall_mem_cons.2 ⟨rfl, List.forall_mem_cons.2 ⟨rfl, h.not_blank (by decide)⟩⟩
  | decimal zeros =>
    have h := hdigits 10 zeros (by decide)
    exact ⟨.of_isNumeral h, h.not_blank (by decide)⟩

theorem number?_of_renders {s : String} {w : Word}
    (h : Renders w.toNat ((s.toList.filter (· != '_')).map Char.toLower)) : number? s = some w := by
  obtain ⟨hnumber, hblank⟩ := h.isNumber
  have htrimmed : Text.Trimmed s.toList := by
    refine .of_not_blank fun c hc => ?_
    by_cases hunderscore : c = '_'
    · rw [hunderscore]
      rfl
    · rw [← Text.isBlank_toLower]
      exact hblank _ (List.mem_map_of_mem (List.mem_filter.2 ⟨hc, by simpa using hunderscore⟩))
  have hread := number?_eq_some_iff_isNumber.2
    ⟨w.isLt, s.toList, Text.trimsTo_iff.2 htrimmed.trim_eq, hnumber⟩
  obtain ⟨v, hv, heq⟩ := Option.map_eq_some_iff.1 hread
  rw [hv, BitVec.eq_of_toNat_eq heq]

theorem readsNumber (s : String) : ReadsNumber s where
  exact _ := number?_eq_some_iff_isNumber
  recovers _ := number?_of_renders

example : number? " 0X_00Ff\n" = some 255#64 ∧ number? "0b+_101_" = some 5#64 ∧
    number? "_ 5" = none ∧ number? "18446744073709551616" = none := by decide +kernel

end Dump

end RegAtlas
