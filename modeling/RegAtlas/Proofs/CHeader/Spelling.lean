import RegAtlas.CHeader.Name
import RegAtlas.Proofs.Text
import Mathlib.Data.List.Basic
import Mathlib.Data.List.Infix
import Mathlib.Data.List.Pairwise

namespace RegAtlas.CHeader

theorem isLower_toUpper (c : Char) : c.toUpper.isLower = false := by
  have h : ¬(97 ≤ c.toUpper.toNat ∧ c.toUpper.toNat ≤ 122) := by
    rw [toNat_toUpper]
    split_ifs <;> omega
  exact (Bool.decide_and _ _).symm.trans (decide_eq_false h)

theorem toUpper_eq_iff (c d : Char) : c.toUpper = d.toUpper ↔ c.toLower = d.toLower := by
  rw [← Char.toNat_inj, ← Char.toNat_inj, toNat_toUpper, toNat_toUpper, toNat_toLower,
    toNat_toLower]
  split_ifs <;> omega

/-- One name in C code: the same characters but for the case of letters, and but for those that
cannot stand in a name. -/
def Alike (a b : String) : Prop := macroName a = macroName b

section Alike

variable {a b c : String} {names : List String}

instance : Decidable (Alike a b) := inferInstanceAs (Decidable (_ = _))

theorem Alike.symm (h : Alike a b) : Alike b a := Eq.symm h

theorem toList_macroName (a : String) :
    (macroName a).toList = a.toList.map fun x => (sanitizeChar x).toUpper := by
  simp [macroName, sanitize, Function.comp_def]

theorem toList_codeName (a : String) :
    (codeName a).toList = a.toList.map fun x => (sanitizeChar x).toLower := by
  simp [codeName, sanitize, Function.comp_def]

theorem macroName_append (a b : String) : macroName (a ++ b) = macroName a ++ macroName b := by
  simp [String.ext_iff, toList_macroName]

theorem codeName_append (a b : String) : codeName (a ++ b) = codeName a ++ codeName b := by
  simp [String.ext_iff, toList_codeName]

theorem isLower_of_mem_macroName {x : Char} (h : x ∈ (macroName a).toList) : x.isLower = false := by
  rw [toList_macroName, List.mem_map] at h
  obtain ⟨y, -, rfl⟩ := h
  exact isLower_toUpper _

theorem codeName_eq_iff : codeName a = codeName b ↔ Alike a b := by
  rw [Alike, String.ext_iff, String.ext_iff, toList_codeName, toList_codeName, toList_macroName,
    toList_macroName]
  generalize a.toList = as
  generalize b.toList = bs
  induction as generalizing bs with
  | nil => cases bs <;> simp
  | cons x as ih => cases bs <;> simp [ih, toUpper_eq_iff]

theorem alike_append_left (a b c : String) : Alike (a ++ b) (a ++ c) ↔ Alike b c := by
  rw [Alike, macroName_append, macroName_append, String.append_right_inj]
  rfl

theorem macroNames_nodup_iff : (names.map macroName).Nodup ↔ names.Pairwise (¬Alike · ·) :=
  List.pairwise_map

end Alike

/-- What a name of a macro ends in that is not the name of an element. -/
inductive Ending where
  | plain
  | offset
  | reset
  | fixedMask
  | fixedValue
  | mask
  | shift
deriving DecidableEq

def Ending.text : Ending → String
  | plain => ""
  | offset => "__OFFSET"
  | reset => "__RESET"
  | fixedMask => "__ALWAYSWRITE_MASK"
  | fixedValue => "__ALWAYSWRITE_VALUE"
  | mask => "__MASK"
  | shift => "__SHIFT"

/-- The name of a macro behind what all names of a header start with: the joined names of elements,
in the case that they were given in, and what follows them. -/
structure Stem where
  base : String
  ending : Ending

def Stem.text (s : Stem) : String := s.base ++ s.ending.text

/-- The names are told apart by more than case: those with the same ending by what is before it, and
those without an ending from those with one. -/
structure Apart (stems : List Stem) : Prop where
  bases : stems.Pairwise fun s t => s.ending = t.ending → ¬Alike s.base t.base
  plain : ∀ s ∈ stems, ∀ t ∈ stems, s.ending = .plain → t.ending ≠ .plain → ¬Alike s.base t.text

theorem append_inj_of_suffix {α : Type} {as bs us vs : List α} (h : as ++ us = bs ++ vs)
    (hfree : us <:+ vs ∨ vs <:+ us → us = vs) : as = bs ∧ us = vs := by
  have hus : us <:+ bs ++ vs := h ▸ List.suffix_append as us
  obtain rfl := hfree (List.suffix_or_suffix_of_suffix hus (List.suffix_append bs vs))
  exact ⟨List.append_cancel_right h, rfl⟩

namespace Ending

variable {e e' : Ending}

theorem macroName_text (e : Ending) : macroName e.text = e.text := by
  cases e <;> decide +kernel

theorem eq_of_suffix (he : e ≠ .plain) (he' : e' ≠ .plain)
    (h : e.text.toList <:+ e'.text.toList) : e = e' := by
  revert h
  cases e <;> cases e' <;> first | contradiction | decide

end Ending

namespace Stem

variable {s t : Stem} {stems : List Stem}

theorem macroName_text (s : Stem) : macroName s.text = macroName s.base ++ s.ending.text := by
  rw [text, macroName_append, s.ending.macroName_text]

theorem alike_iff_of_ending_eq (h : s.ending = t.ending) :
    Alike s.text t.text ↔ Alike s.base t.base := by
  rw [Alike, macroName_text, macroName_text, h, String.append_left_inj]
  rfl

theorem not_alike_of_ending_ne (hs : s.ending ≠ .plain) (ht : t.ending ≠ .plain)
    (h : s.ending ≠ t.ending) : ¬Alike s.text t.text := by
  intro halike
  rw [Alike, macroName_text, macroName_text, String.ext_iff, String.toList_append,
    String.toList_append] at halike
  have hsuffix := (append_inj_of_suffix halike fun hsuffix => ?_).2
  · exact h (Ending.eq_of_suffix hs ht (hsuffix ▸ List.suffix_refl _))
  · rcases hsuffix with hsuffix | hsuffix
    · rw [Ending.eq_of_suffix hs ht hsuffix]
    · rw [Ending.eq_of_suffix ht hs hsuffix]

theorem text_plain (h : s.ending = .plain) : s.text = s.base := by
  rw [text, h]
  exact String.append_empty

theorem pairwise_not_alike_iff :
    stems.Pairwise (fun s t => ¬Alike s.text t.text) ↔ Apart stems := by
  constructor
  · refine fun h => ⟨h.imp fun hne hending => ?_, fun s hs t ht hplain hending => ?_⟩
    · rwa [← alike_iff_of_ending_eq hending]
    · have hst : s ≠ t := fun heq => hending (heq ▸ hplain)
      rw [← text_plain hplain]
      have : Std.Symm fun s t : Stem => ¬Alike s.text t.text := ⟨fun _ _ hne h => hne h.symm⟩
      exact h.forall hs ht hst
  · refine fun h => h.bases.imp_of_mem fun {s t} hs ht hbase => ?_
    by_cases hending : s.ending = t.ending
    · rw [alike_iff_of_ending_eq hending]
      exact hbase hending
    · by_cases hplain : s.ending = .plain
      · rw [text_plain hplain]
        exact h.plain s hs t ht hplain fun ht => hending (hplain.trans ht.symm)
      · by_cases hplain' : t.ending = .plain
        · rw [text_plain hplain']
          exact fun halike => h.plain t ht s hs hplain' hplain halike.symm
        · exact not_alike_of_ending_ne hplain hplain' hending

end Stem

instance (stems : List Stem) : Decidable (Apart stems) :=
  decidable_of_iff _ Stem.pairwise_not_alike_iff

end RegAtlas.CHeader
