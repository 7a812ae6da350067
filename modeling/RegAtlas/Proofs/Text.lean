import RegAtlas.Text.Basic
import Mathlib.Data.List.DropRight
import Mathlib.Data.List.Forall2
import Mathlib.Data.List.Infix

namespace RegAtlas

section Case

theorem toNat_toUpper (c : Char) :
    c.toUpper.toNat = if 97 ≤ c.toNat ∧ c.toNat ≤ 122 then c.toNat - 32 else c.toNat := by
  split_ifs with h
  · have hsum : c.toUpper.toNat = (c.toNat + 4294967264) % 4294967296 :=
      (congrArg Char.toNat (dif_pos h)).trans (UInt32.toNat_add _ _)
    omega
  · exact congrArg Char.toNat (dif_neg h)

theorem toNat_toLower (c : Char) :
    c.toLower.toNat = if 65 ≤ c.toNat ∧ c.toNat ≤ 90 then c.toNat + 32 else c.toNat := by
  split_ifs with h
  · have hsum : c.toLower.toNat = (c.toNat + 32) % 4294967296 :=
      (congrArg Char.toNat (dif_pos h)).trans (UInt32.toNat_add _ _)
    omega
  · exact congrArg Char.toNat (dif_neg h)

theorem toLower_toLower (c : Char) : c.toLower.toLower = c.toLower := by
  rw [← Char.toNat_inj, toNat_toLower, toNat_toLower]
  split_ifs <;> omega

end Case

namespace Text

variable {c : Char} {cs xs ys : List Char}

section Trim

theorem trimEnd_append (h : trimEnd ys ≠ []) : trimEnd (xs ++ ys) = xs ++ trimEnd ys := by
  have hne : ys.reverse.dropWhile isBlank ≠ [] := fun hnil => h (by rw [trimEnd, hnil]; rfl)
  rw [trimEnd, List.reverse_append, List.dropWhile_append, if_neg (by simpa using hne),
    List.reverse_append, List.reverse_reverse]
  rfl

theorem getLast?_trimEnd (h : (trimEnd cs).getLast? = some c) : isBlank c = false := by
  have hne : trimEnd cs ≠ [] := fun hnil => by simp [hnil] at h
  rw [List.getLast?_eq_some_getLast hne, Option.some.injEq] at h
  subst h
  exact Bool.eq_false_iff.2 (List.rdropWhile_last_not isBlank cs hne)

theorem trimEnd_eq_nil_iff : trimEnd cs = [] ↔ ∀ c ∈ cs, isBlank c = true := by
  rw [trimEnd, List.reverse_eq_nil_iff, List.dropWhile_eq_nil_iff]
  simp only [List.mem_reverse]

theorem trimEnd_ne_nil (h : ∃ c ∈ cs, isBlank c = false) : trimEnd cs ≠ [] := by
  obtain ⟨c, hc, hblank⟩ := h
  exact fun hnil => Bool.false_ne_true (hblank.symm.trans (trimEnd_eq_nil_iff.1 hnil c hc))

theorem trimEnd_cons (hc : isBlank c = false) : trimEnd (c :: cs) = c :: trimEnd cs := by
  by_cases h : trimEnd cs = []
  · have hnil : cs.reverse.dropWhile isBlank = [] := List.reverse_eq_nil_iff.1 h
    rw [h, trimEnd, List.reverse_cons, List.dropWhile_append, hnil]
    simp [hc]
  · have happend : trimEnd ([c] ++ cs) = [c] ++ trimEnd cs := trimEnd_append h
    exact happend

theorem trimEnd_append_blanks (h : ∀ c ∈ ys, isBlank c = true) :
    trimEnd (xs ++ ys) = trimEnd xs := by
  rw [trimEnd, List.reverse_append, List.dropWhile_append_of_pos, ← trimEnd]
  exact fun c hc => h c (List.mem_reverse.1 hc)

/-- No blank stands first or last. -/
structure Trimmed (cs : List Char) : Prop where
  head : ∀ c ∈ cs.head?, isBlank c = false
  last : ∀ c ∈ cs.getLast?, isBlank c = false

theorem trimmed_iff : Trimmed cs ↔
    cs.head?.all (!isBlank ·) = true ∧ cs.getLast?.all (!isBlank ·) = true := by
  simp only [Option.all_eq_true, Bool.not_eq_true', ← Option.mem_def]
  exact ⟨fun h => ⟨h.head, h.last⟩, fun h => ⟨h.1, h.2⟩⟩

instance (cs : List Char) : Decidable (Trimmed cs) := decidable_of_iff' _ trimmed_iff

theorem Trimmed.of_not_blank (h : ∀ c ∈ cs, isBlank c = false) : Trimmed cs :=
  ⟨fun c hc => h c (List.mem_of_mem_head? hc), fun c hc => h c (List.mem_of_getLast? hc)⟩

theorem trimEnd_eq_self (h : ∀ c ∈ cs.getLast?, isBlank c = false) : trimEnd cs = cs := by
  refine List.rdropWhile_eq_self_iff.2 fun hne => ?_
  rw [h _ (List.getLast?_eq_some_getLast hne)]
  exact Bool.false_ne_true

theorem Trimmed.trimEnd_eq (h : Trimmed cs) : trimEnd cs = cs := trimEnd_eq_self h.last

theorem Trimmed.trim_padded {before after : List Char} (h : Trimmed cs)
    (hbefore : ∀ c ∈ before, isBlank c = true) (hafter : ∀ c ∈ after, isBlank c = true) :
    trim (before ++ cs ++ after) = cs := by
  rw [trim, trimStart, List.append_assoc, List.dropWhile_append_of_pos hbefore]
  cases cs with
  | nil =>
    rw [List.nil_append, List.dropWhile_eq_nil_iff.2 hafter]
    rfl
  | cons c cs =>
    have hc : ¬isBlank c = true := by simp [h.head c rfl]
    rw [List.cons_append, List.dropWhile_cons_of_neg hc, ← List.cons_append,
      trimEnd_append_blanks hafter, h.trimEnd_eq]

theorem Trimmed.trim_eq (h : Trimmed cs) : trim cs = cs := by
  have hcs : trim ([] ++ cs ++ []) = cs := h.trim_padded nofun nofun
  rwa [List.nil_append, List.append_nil] at hcs

theorem exists_trimEnd (cs : List Char) :
    ∃ after, cs = trimEnd cs ++ after ∧ ∀ c ∈ after, isBlank c = true :=
  ⟨cs.rtakeWhile isBlank, (List.rdropWhile_append_rtakeWhile ..).symm,
    fun _ hc => List.mem_rtakeWhile_imp hc⟩

theorem exists_trim (cs : List Char) : ∃ before after, cs = before ++ trim cs ++ after ∧
    (∀ c ∈ before, isBlank c = true) ∧ ∀ c ∈ after, isBlank c = true := by
  obtain ⟨after, hafter, hblank⟩ := exists_trimEnd (trimStart cs)
  refine ⟨cs.takeWhile isBlank, after, ?_, fun c hc => List.mem_takeWhile_imp hc, hblank⟩
  rw [trim, List.append_assoc, ← hafter, trimStart, List.takeWhile_append_dropWhile]

theorem trimEnd_isPrefix (cs : List Char) : trimEnd cs <+: cs := List.rdropWhile_prefix isBlank cs

theorem trimmed_trim (cs : List Char) : Trimmed (trim cs) where
  head c hc := by
    obtain ⟨rest, hrest⟩ := trimEnd_isPrefix (trimStart cs)
    have hmem : (trimStart cs).head? = some c := by
      rw [← hrest]
      exact List.mem_head?_append_of_mem_head? hc
    have hnot := List.head?_dropWhile_not isBlank cs
    rw [← trimStart, hmem] at hnot
    simpa using hnot
  last _ hc := getLast?_trimEnd hc

/-- `core` is all of `cs` but for the blanks around it. -/
structure TrimsTo (cs core : List Char) : Prop where
  trimmed : Trimmed core
  padded : ∃ before after, cs = before ++ core ++ after ∧ (∀ c ∈ before, isBlank c = true) ∧
    ∀ c ∈ after, isBlank c = true

theorem trimsTo_iff {core : List Char} : TrimsTo cs core ↔ trim cs = core := by
  constructor
  · rintro ⟨htrimmed, before, after, rfl, hbefore, hafter⟩
    exact htrimmed.trim_padded hbefore hafter
  · rintro rfl
    exact ⟨trimmed_trim cs, exists_trim cs⟩

end Trim

section Lines

theorem lines_spec (cs : List Char) : (∀ l ∈ (lines cs).head?, l <+: cs) ∧
    ∀ l ∈ lines cs, '\n' ∉ l ∧ l <:+: cs := by
  have hnil (cs : List Char) : '\n' ∉ ([] : List Char) ∧ [] <:+: cs := ⟨by simp, List.nil_infix⟩
  fun_induction lines cs with
  | case1 => simp
  | case2 cs ih =>
    refine ⟨by simp, List.forall_mem_cons.2 ⟨hnil _, fun l hl => ?_⟩⟩
    exact (ih.2 l hl).imp_right List.infix_cons
  | case3 cs ih =>
    refine ⟨by simp, List.forall_mem_cons.2 ⟨hnil _, fun l hl => ?_⟩⟩
    exact (ih.2 l hl).imp_right fun h => List.infix_cons (List.infix_cons h)
  | case4 c cs hc _ hempty ih =>
    have hstart : [c] <+: c :: cs := ⟨cs, rfl⟩
    have hmem : '\n' ∉ [c] := by simpa using Ne.symm hc
    exact ⟨by simp, List.forall_mem_singleton.2 ⟨hmem, hstart.isInfix⟩⟩
  | case5 c cs hc _ l ls heq ih =>
    obtain ⟨hhead, hlines⟩ := ih
    rw [heq] at hhead hlines
    obtain ⟨hl, hls⟩ := List.forall_mem_cons.1 hlines
    have hstart : c :: l <+: c :: cs := (List.prefix_cons_inj c).2 (hhead l rfl)
    have hmem : '\n' ∉ c :: l := by
      rw [List.mem_cons, not_or]
      exact ⟨Ne.symm hc, hl.1⟩
    refine ⟨by simpa using hstart, List.forall_mem_cons.2 ⟨⟨hmem, hstart.isInfix⟩, ?_⟩⟩
    exact fun l hl => (hls l hl).imp_right List.infix_cons

theorem lines_ne_nil (h : cs ≠ []) : lines cs ≠ [] := by
  fun_cases lines cs <;> simp_all

end Lines

section Pieces

theorem pieces_cons (hc : c ≠ '\n') (cs : List Char) :
    pieces (c :: cs) = (c :: (pieces cs).headD []) :: (pieces cs).tail := by
  rw [pieces.eq_def]
  split
  · contradiction
  · next heq =>
    cases heq
    exact absurd rfl hc
  · next heq =>
    cases heq
    cases pieces cs <;> rfl

theorem pieces_ne_nil (cs : List Char) : pieces cs ≠ [] := by
  cases cs with
  | nil => exact List.cons_ne_nil _ _
  | cons c cs =>
    by_cases hc : c = '\n'
    · subst hc
      exact List.cons_ne_nil _ _
    · rw [pieces_cons hc]
      exact List.cons_ne_nil _ _

theorem pieces_append (xs ys : List Char) :
    pieces (xs ++ '\n' :: ys) = pieces xs ++ pieces ys := by
  induction xs with
  | nil => rfl
  | cons c xs ih =>
    by_cases hc : c = '\n'
    · subst hc
      exact congrArg ([] :: ·) ih
    · rw [List.cons_append, pieces_cons hc, pieces_cons hc, ih]
      have hne := pieces_ne_nil xs
      cases h : pieces xs with
      | nil => exact absurd h hne
      | cons l ls => rfl

theorem pieces_of_not_mem (h : '\n' ∉ cs) : pieces cs = [cs] := by
  induction cs with
  | nil => rfl
  | cons c cs ih =>
    rw [List.mem_cons, not_or] at h
    rw [pieces_cons (Ne.symm h.1), ih h.2]
    rfl

theorem length_pieces (cs : List Char) : (pieces cs).length = cs.count '\n' + 1 := by
  induction cs with
  | nil => rfl
  | cons c cs ih =>
    by_cases hc : c = '\n'
    · subst hc
      rw [List.count_cons_self, ← ih]
      rfl
    · have hpos := List.length_pos_iff.2 (pieces_ne_nil cs)
      rw [pieces_cons hc, List.count_cons_of_ne hc, ← ih, List.length_cons, List.length_tail]
      omega

/-- A text that does not end in a line feed has its pieces as lines, without a carriage return at
the end. -/
theorem lines_pieces (hne : cs ≠ []) (hlast : cs.getLast? ≠ some '\n') :
    List.Forall₂ (fun l p => p = l ∨ p = l ++ ['\r']) (lines cs) (pieces cs) := by
  fun_induction lines cs with
  | case1 => exact absurd rfl hne
  | case2 cs ih =>
    have hcs : cs ≠ [] := fun hnil => hlast (by rw [hnil]; rfl)
    exact .cons (.inl rfl) (ih hcs (by rwa [List.getLast?_cons_of_ne_nil hcs] at hlast))
  | case3 cs ih =>
    have hcs : cs ≠ [] := fun hnil => hlast (by rw [hnil]; rfl)
    rw [List.getLast?_cons_cons, List.getLast?_cons_of_ne_nil hcs] at hlast
    rw [pieces_cons (by decide)]
    exact .cons (.inr rfl) (ih hcs hlast)
  | case4 c cs hc _ hempty =>
    have hcs : cs = [] := by
      by_contra hcs
      exact lines_ne_nil hcs hempty
    subst hcs
    rw [pieces_cons hc]
    exact .cons (.inl rfl) .nil
  | case5 c cs hc _ l ls heq ih =>
    have hcs : cs ≠ [] := by
      rintro rfl
      cases heq
    have hrest := ih hcs (by rwa [List.getLast?_cons_of_ne_nil hcs] at hlast)
    obtain ⟨p, ps, hp, hps, hpieces⟩ := List.forall₂_cons_left_iff.1 (heq ▸ hrest)
    rw [pieces_cons hc, hpieces]
    exact .cons (hp.imp (congrArg (c :: ·)) (congrArg (c :: ·))) hps

theorem length_lines (hne : cs ≠ []) (hlast : cs.getLast? ≠ some '\n') :
    (lines cs).length = cs.count '\n' + 1 :=
  (lines_pieces hne hlast).length_eq.trans (length_pieces cs)

theorem getLast?_trimEnd_ne : (trimEnd cs).getLast? ≠ some '\n' := fun h =>
  Bool.false_ne_true (getLast?_trimEnd h).symm

theorem length_lines_trimEnd_le_one_iff :
    (lines (trimEnd cs)).length ≤ 1 ↔ '\n' ∉ trimEnd cs := by
  by_cases hne : trimEnd cs = []
  · simp [hne, lines]
  · rw [length_lines hne getLast?_trimEnd_ne, ← List.count_eq_zero]
    omega

theorem mem_trimEnd_of_mem_trim (h : c ∈ trim cs) : c ∈ trimEnd cs := by
  have hsplit : trimEnd cs = cs.takeWhile isBlank ++ trim cs := by
    rw [trim, ← trimEnd_append (List.ne_nil_of_mem h), trimStart,
      List.takeWhile_append_dropWhile]
  rw [hsplit]
  exact List.mem_append_right _ h

end Pieces

end Text

theorem toList_trimmedEnd_isPrefix (s : String) : (trimmedEnd s).toList <+: s.toList := by
  rw [trimmedEnd, String.toList_ofList]
  exact Text.trimEnd_isPrefix _

theorem toList_unlines (ls : List String) :
    (unlines ls).toList = ls.flatMap fun l => l.toList ++ ['\n'] := by
  induction ls with
  | nil => rfl
  | cons l ls ih =>
    rw [unlines, List.foldr_cons, String.toList_append, String.toList_append, List.flatMap_cons,
      ← ih]
    rfl

theorem unlines_singleton (l : String) : (unlines [l]).toList = l.toList ++ ['\n'] := by
  rw [toList_unlines, List.flatMap_singleton]

theorem toList_intercalate_cons (sep part : String) (parts : List String) :
    (sep.intercalate (part :: parts)).toList =
      part.toList ++ parts.flatMap fun other => sep.toList ++ other.toList := by
  induction parts generalizing part with
  | nil => simp
  | cons other parts ih =>
    rw [String.intercalate_cons_cons, String.toList_append, String.toList_append, ih,
      List.flatMap_cons, List.append_assoc, List.append_assoc]

theorem toList_intercalate_append_cons (sep part : String) (before parts : List String) :
    (sep.intercalate (before ++ part :: parts)).toList =
      before.flatMap (fun other => other.toList ++ sep.toList) ++
        (part.toList ++ parts.flatMap fun other => sep.toList ++ other.toList) := by
  induction before with
  | nil => exact toList_intercalate_cons sep part parts
  | cons other before ih =>
    have hne : before ++ part :: parts ≠ [] := by simp
    rw [List.cons_append, String.intercalate_cons_of_ne_nil hne, String.toList_append,
      String.toList_append, ih, List.flatMap_cons]
    exact (List.append_assoc _ _ _).symm

theorem forall_mem_intercalate {p : Char → Prop} {sep : String} {parts : List String}
    (hsep : ∀ c ∈ sep.toList, p c) (hparts : ∀ part ∈ parts, ∀ c ∈ part.toList, p c) :
    ∀ c ∈ (sep.intercalate parts).toList, p c := by
  cases parts with
  | nil => simp
  | cons part parts =>
    obtain ⟨hpart, hparts⟩ := List.forall_mem_cons.1 hparts
    rw [toList_intercalate_cons, List.forall_mem_append]
    refine ⟨hpart, fun c hc => ?_⟩
    obtain ⟨other, hother, hc⟩ := List.mem_flatMap.1 hc
    exact List.forall_mem_append.2 ⟨hsep, hparts other hother⟩ c hc

end RegAtlas
