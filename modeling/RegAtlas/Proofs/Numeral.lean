import RegAtlas.Numeral
import Mathlib.Data.List.Forall2
import Mathlib.Data.Nat.Digits.Defs
import Mathlib.Tactic.IntervalCases

namespace RegAtlas.Numeral

/-- Digits of `base` that write `n`, letters in lower case, with any number of zeros before it. -/
def IsNumeral (base : Nat) (ds : List Char) (n : Nat) : Prop :=
  ∃ vs : List Nat, vs ≠ [] ∧ (∀ v ∈ vs, v < base) ∧ vs.map Nat.digitChar = ds ∧
    Nat.ofDigits base vs.reverse = n

variable {base n : Nat} {c : Char} {cs ds : List Char}

theorem digit?_of_lt {d : Nat} (hc : digit? 16 c = some d) (h : d < base) :
    digit? base c = some d := by
  simp only [digit?, Option.filter_eq_some_iff, decide_eq_true_eq] at hc ⊢
  exact ⟨hc.1, h⟩

theorem lt_of_digit? {d : Nat} (h : digit? base c = some d) : d < base :=
  of_decide_eq_true (Option.filter_eq_some_iff.1 h).2

theorem digit?_lower {d : Nat} (h : d < 16) : digit? 16 (Nat.digitChar d) = some d := by
  interval_cases d <;> decide

theorem digit?_upper {d : Nat} (h : d < 16) :
    digit? 16 (Nat.digitChar d).toUpper = some d := by
  interval_cases d <;> decide

theorem digit?_digitChar (hle : base ≤ 16) {d : Nat} (h : d < base) :
    digit? base (Nat.digitChar d) = some d :=
  digit?_of_lt (digit?_lower (h.trans_le hle)) h

theorem readFrom?_append (n : Nat) (cs ds : List Char) :
    readFrom? base n (cs ++ ds) = (readFrom? base n cs).bind fun k => readFrom? base k ds := by
  induction cs generalizing n with
  | nil => rfl
  | cons c cs ih =>
    simp only [List.cons_append, readFrom?, ih, Option.bind_assoc]

theorem readFrom?_eq_some_iff_foldl {k : Nat} : readFrom? base k cs = some n ↔
    ∃ vs, List.Forall₂ (fun c v => digit? base c = some v) cs vs ∧
      vs.foldl (fun m v => v + base * m) k = n := by
  induction cs generalizing k with
  | nil => simp [readFrom?]
  | cons c cs ih =>
    simp only [readFrom?, Option.bind_eq_some_iff, ih, List.forall₂_cons_left_iff]
    constructor
    · rintro ⟨v, hv, vs, hvs, hn⟩
      exact ⟨v :: vs, ⟨v, vs, hv, hvs, rfl⟩, by rwa [List.foldl_cons, Nat.add_comm]⟩
    · rintro ⟨_, ⟨v, vs, hv, hvs, rfl⟩, hn⟩
      exact ⟨v, hv, vs, hvs, by rwa [List.foldl_cons, Nat.add_comm] at hn⟩

theorem readFrom?_eq_some_iff : readFrom? base 0 cs = some n ↔
    ∃ vs, List.Forall₂ (fun c v => digit? base c = some v) cs vs ∧
      Nat.ofDigits base vs.reverse = n := by
  simp only [readFrom?_eq_some_iff_foldl, Nat.ofDigits_eq_foldr, List.foldr_reverse, Nat.cast_id]

theorem isNumeral_toDigits (hbase : 1 < base) (n : Nat) :
    IsNumeral base (Nat.toDigits base n) n := by
  induction n using Nat.strongRecOn with
  | ind n ih =>
    by_cases h : n < base
    · refine ⟨[n], List.cons_ne_nil _ _, List.forall_mem_singleton.2 h, ?_, ?_⟩
      · rw [Nat.toDigits_of_lt_base h, List.map_singleton]
      · exact Nat.ofDigits_singleton
    · obtain ⟨vs, -, hvs, hdigits, hn⟩ := ih (n / base) (Nat.div_lt_self (by omega) hbase)
      have hmod : n % base < base := Nat.mod_lt n (by omega)
      refine ⟨vs ++ [n % base], by simp, ?_, ?_, ?_⟩
      · exact List.forall_mem_append.2 ⟨hvs, List.forall_mem_singleton.2 hmod⟩
      · rw [Nat.toDigits_of_base_le hbase (by omega), ← hdigits, List.map_append,
          List.map_singleton]
      · rw [List.reverse_append, List.reverse_singleton, List.singleton_append, Nat.ofDigits_cons,
          hn]
        exact Nat.mod_add_div n base

theorem IsNumeral.readFrom? {f : Char → Char} (h : IsNumeral base ds n)
    (hf : ∀ d < base, digit? base (f (Nat.digitChar d)) = some d) :
    readFrom? base 0 (ds.map f) = some n := by
  obtain ⟨vs, -, hvs, rfl, hn⟩ := h
  refine readFrom?_eq_some_iff.2 ⟨vs, ?_, hn⟩
  rw [List.map_map, List.forall₂_map_left_iff, List.forall₂_same]
  exact fun v hv => hf v (hvs v hv)

theorem readFrom?_upper (n : Nat) :
    readFrom? 16 0 ((Nat.toDigits 16 n).map Char.toUpper) = some n :=
  (isNumeral_toDigits (by decide) n).readFrom? fun _ => digit?_upper

theorem readFrom?_lower (hbase : 1 < base) (hle : base ≤ 16) (n : Nat) :
    readFrom? base 0 (Nat.toDigits base n) = some n := by
  have h := (isNumeral_toDigits hbase n).readFrom? (f := id) fun _ => digit?_digitChar hle
  rwa [List.map_id] at h

theorem eq_of_digits_eq {digits : Nat → String}
    (hread : ∀ n, readFrom? 16 0 (digits n).toList = some n)
    {v w : Word} (h : "0x" ++ digits v.toNat = "0x" ++ digits w.toNat) : v = w := by
  have hback := congrArg (fun s => readFrom? 16 0 s.toList) ((String.append_right_inj _).1 h)
  simp only [hread, Option.some.injEq] at hback
  exact BitVec.eq_of_toNat_eq hback

theorem hexUpper_injective {v w : Word} (h : hexUpper v = hexUpper w) : v = w := by
  refine eq_of_digits_eq (fun n => ?_) h
  rw [upper, String.toList_ofList, readFrom?_upper]

theorem hex_injective {v w : Word} (h : hex v = hex w) : v = w := by
  refine eq_of_digits_eq (fun n => ?_) h
  rw [lower, String.toList_ofList, readFrom?_lower (by decide) le_rfl]

end RegAtlas.Numeral
