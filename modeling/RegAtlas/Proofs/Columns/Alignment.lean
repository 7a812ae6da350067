import RegAtlas.Proofs.Guarded.Basic
import RegAtlas.Proofs.Markdown.Lines

namespace RegAtlas.Columns

open Markdown (OneLine oneLine_iff pieces_unlines)

/-- How far from the start of a line column `k` starts: behind the lead, and behind the columns
before it with a separator behind each of them. -/
def start (rows : List Row) (lead sep : String) (k : Nat) : Nat :=
  lead.length + (((widths rows).take k).map (· + sep.length)).sum

/-- Behind cell `k` of a row stand only blanks: the later cells have no text, nor do the separators
in front of them. -/
def BlankBehind (sep : String) (row : Row) (k : Nat) : Prop :=
  ∀ cell ∈ row.drop (k + 1), ¬HasText sep ∧ ¬HasText cell

/-- The line `l` of a row: a cell with text stands at the start of its column, whole if there is
text behind it, and otherwise without the blanks at its end. In front of the last text nothing is
lost, so that spaces fill the columns and separators stand between them. -/
structure Shows (rows : List Row) (lead sep : String) (row : Row) (l : List Char) : Prop where
  whole : ∀ k cell, row[k]? = some cell → HasText cell → ¬BlankBehind sep row k →
    cell.toList <+: l.drop (start rows lead sep k)
  last : ∀ k cell, row[k]? = some cell → HasText cell → BlankBehind sep row k →
    l.drop (start rows lead sep k) = Text.trimEnd cell.toList
  filled : ∀ k cell, row[k]? = some cell → (∃ later ∈ row.drop (k + 1), HasText later) →
    cell.toList ++ List.replicate ((widths rows).getD k 0 - cell.length) ' ' ++ sep.toList <+:
      l.drop (start rows lead sep k)
  opened : (∃ cell ∈ row, HasText cell) → lead.toList <+: l

/-- The text of `rows` in columns has the lines `ls`, one for each row, in which the columns are
aligned. Column `j` is as wide as the longest cell `j` of a row. -/
structure Aligned (rows : List Row) (lead sep : String) (ls : List (List Char)) : Prop where
  text : Text.pieces (unlines (lines rows lead sep)).toList = ls ++ [[]]
  trimmed : ∀ l ∈ ls, ∀ c ∈ l.getLast?, Text.isBlank c = false
  shows : List.Forall₂ (Shows rows lead sep) rows ls
  widest : ∀ j (h : j < (widths rows).length), IsGreatest
    {n | ∃ row ∈ rows, ∃ cell, row[j]? = some cell ∧ cell.length = n} (widths rows)[j]
  columns : ∀ row ∈ rows, row.length ≤ (widths rows).length
  guarded : guardedLines rows lead sep = .ok (lines rows lead sep)

variable {rows : List Row} {row cells parts : Row} {lead sep cell part : String} {k : Nat}

section Fill

def Padded (cell part : String) : Prop :=
  ∃ blanks, part.toList = cell.toList ++ blanks ∧ ∀ c ∈ blanks, Text.isBlank c = true

theorem padded_pad (cell : String) (width : Nat) : Padded cell (pad cell ' ' width) := by
  refine ⟨List.replicate (width - cell.length) ' ', by simp [pad], fun c hc => ?_⟩
  rw [List.eq_of_mem_replicate hc]
  decide

theorem Padded.not_hasText_iff (h : Padded cell part) : ¬HasText part ↔ ¬HasText cell := by
  obtain ⟨blanks, hpart, hblanks⟩ := h
  rw [RegAtlas.not_hasText_iff, RegAtlas.not_hasText_iff, hpart, List.forall_mem_append]
  exact and_iff_left hblanks

def filling (rows : List Row) (row : Row) : Row :=
  List.zipWith (fun cell w => pad cell ' ' w) row (widths rows)

theorem length_filling (h : row ∈ rows) : (filling rows row).length = row.length := by
  rw [filling, List.length_zipWith, min_eq_left (length_le_widths h)]

theorem getElem?_filling (h : row ∈ rows) (hk : row[k]? = some cell) :
    (filling rows row)[k]? = some (pad cell ' ' ((widths rows).getD k 0)) := by
  obtain ⟨hrow, -⟩ := List.getElem?_eq_some_iff.1 hk
  have hwidths := hrow.trans_le (length_le_widths h)
  rw [filling, List.getElem?_zipWith, hk, List.getElem?_eq_getElem hwidths,
    List.getD_eq_getElem?_getD, List.getElem?_eq_getElem hwidths]
  rfl

theorem forall₂_padded (h : row ∈ rows) : List.Forall₂ Padded row (filling rows row) := by
  refine List.forall₂_iff_get.2 ⟨(length_filling h).symm, fun i hi hi' => ?_⟩
  have hcell := getElem?_filling h (List.getElem?_eq_getElem hi)
  rw [List.getElem?_eq_getElem hi', Option.some.injEq] at hcell
  rw [List.get_eq_getElem, List.get_eq_getElem, hcell]
  exact padded_pad _ _

theorem lengths_filling (h : row ∈ rows) :
    (filling rows row).map String.length = (widths rows).take row.length := by
  apply List.ext_getElem?
  intro i
  rw [List.getElem?_map]
  cases hcell : row[i]? with
  | none =>
    have hlong : row.length ≤ i := List.getElem?_eq_none_iff.1 hcell
    rw [List.getElem?_eq_none ((length_filling h).trans_le hlong), List.getElem?_take_eq_none hlong]
    rfl
  | some cell =>
    obtain ⟨hrow, -⟩ := List.getElem?_eq_some_iff.1 hcell
    have hwidth := getD_le_widths h i
    rw [getD_map_length hcell] at hwidth
    rw [getElem?_filling h hcell, Option.map_some, length_pad, max_eq_right hwidth,
      List.getElem?_take_of_lt hrow, List.getD_eq_getElem?_getD,
      List.getElem?_eq_getElem (hrow.trans_le (length_le_widths h)), Option.getD_some]

def behindSeparators (sep : String) (parts : Row) : List Char :=
  parts.flatMap fun part => sep.toList ++ part.toList

theorem blank_behindSeparators_iff (h : List.Forall₂ Padded cells parts) :
    (∀ c ∈ behindSeparators sep parts, Text.isBlank c = true) ↔
      ∀ cell ∈ cells, ¬HasText sep ∧ ¬HasText cell := by
  induction h with
  | nil => simp [behindSeparators]
  | cons hpart _ ih =>
    rw [behindSeparators, List.flatMap_cons, List.forall_mem_append, List.forall_mem_append,
      ← behindSeparators, ih, ← not_hasText_iff, ← not_hasText_iff, hpart.not_hasText_iff,
      List.forall_mem_cons]

theorem exists_behindSeparators (h : List.Forall₂ Padded cells parts) (sep : String)
    (htext : ∃ cell ∈ cells, HasText cell) :
    ∃ rest, behindSeparators sep parts = sep.toList ++ rest ∧
      ∃ c ∈ rest, Text.isBlank c = false := by
  obtain ⟨later, hmem, htext⟩ := htext
  cases h with
  | nil => exact absurd hmem List.not_mem_nil
  | @cons cell part cells parts hpart hparts =>
    refine ⟨part.toList ++ behindSeparators sep parts, ?_, ?_⟩
    · rw [behindSeparators, List.flatMap_cons, List.append_assoc, ← behindSeparators]
    · by_contra hnone
      have hblank : ∀ c ∈ part.toList ++ behindSeparators sep parts, Text.isBlank c = true :=
        fun c hc => Bool.eq_true_of_not_eq_false fun hc' => hnone ⟨c, hc, hc'⟩
      rw [List.forall_mem_append, blank_behindSeparators_iff hparts, ← not_hasText_iff,
        hpart.not_hasText_iff] at hblank
      obtain rfl | hmem := List.mem_cons.1 hmem
      · exact hblank.1 htext
      · exact (hblank.2 later hmem).2 htext

def behind (rows : List Row) (sep : String) (row : Row) (k : Nat) : List Char :=
  behindSeparators sep ((filling rows row).drop (k + 1))

theorem blank_behind_iff (h : row ∈ rows) :
    (∀ c ∈ behind rows sep row k, Text.isBlank c = true) ↔ BlankBehind sep row k :=
  blank_behindSeparators_iff (List.forall₂_drop (k + 1) (forall₂_padded h))

theorem exists_before (h : row ∈ rows) (hk : row[k]? = some cell) (sep : String) :
    ∃ before, (sep.intercalate (filling rows row)).toList =
        before ++ ((pad cell ' ' ((widths rows).getD k 0)).toList ++ behind rows sep row k) ∧
      before.length = (((widths rows).take k).map (· + sep.length)).sum := by
  obtain ⟨hrow, -⟩ := List.getElem?_eq_some_iff.1 hk
  obtain ⟨hparts, hpart⟩ := List.getElem?_eq_some_iff.1 (getElem?_filling h hk)
  refine ⟨((filling rows row).take k).flatMap fun part => part.toList ++ sep.toList, ?_, ?_⟩
  · have hcut : filling rows row = (filling rows row).take k ++
        pad cell ' ' ((widths rows).getD k 0) :: (filling rows row).drop (k + 1) := by
      rw [← hpart, List.getElem_cons_drop, List.take_append_drop]
    conv_lhs => rw [hcut]
    exact toList_intercalate_append_cons _ _ _ _
  · have hwidths : ((filling rows row).take k).map String.length = (widths rows).take k := by
      rw [List.map_take, lengths_filling h, List.take_take, min_eq_left hrow.le]
    simp only [List.length_flatMap, List.length_append, String.length_toList, ← hwidths,
      List.map_map, Function.comp_def]

end Fill

section Line

def line (rows : List Row) (lead sep : String) (row : Row) : String :=
  trimmedEnd (lead ++ sep.intercalate (filling rows row))

theorem lines_eq (rows : List Row) (lead sep : String) :
    lines rows lead sep = rows.map (line rows lead sep) := rfl

theorem toList_line (rows : List Row) (lead sep : String) (row : Row) :
    (line rows lead sep row).toList =
      Text.trimEnd (lead.toList ++ (sep.intercalate (filling rows row)).toList) := by
  rw [line, trimmedEnd, String.toList_ofList, String.toList_append]

theorem drop_line (lead : String) (hrow : row ∈ rows) (hk : row[k]? = some cell)
    {after : List Char}
    (hafter : (pad cell ' ' ((widths rows).getD k 0)).toList ++ behind rows sep row k = after)
    (htext : ∃ c ∈ after, Text.isBlank c = false) :
    (line rows lead sep row).toList.drop (start rows lead sep k) = Text.trimEnd after := by
  obtain ⟨before, hparts, hlength⟩ := exists_before hrow hk sep
  have hstart : start rows lead sep k = (lead.toList ++ before).length := by
    rw [start, List.length_append, hlength, String.length_toList]
  rw [toList_line, hparts, hafter, ← List.append_assoc, hstart,
    Text.trimEnd_append (Text.trimEnd_ne_nil htext), List.drop_left]

theorem exists_drop_line (hrow : row ∈ rows) (hk : row[k]? = some cell) (htext : HasText cell) :
    ∃ after, (line rows lead sep row).toList.drop (start rows lead sep k) =
        Text.trimEnd (cell.toList ++ after) ∧
      ((∀ c ∈ after, Text.isBlank c = true) ↔ BlankBehind sep row k) := by
  -- A line from the start of a cell with text. Only what is behind the cell decides on the blanks
  -- that are lost.
  obtain ⟨blanks, hpad, hblanks⟩ := padded_pad cell ((widths rows).getD k 0)
  refine ⟨blanks ++ behind rows sep row k, ?_, ?_⟩
  · obtain ⟨c, hc, hblank⟩ := htext
    refine drop_line lead hrow hk ?_ ⟨c, List.mem_append_left _ hc, hblank⟩
    rw [hpad, List.append_assoc]
  · rw [List.forall_mem_append, blank_behind_iff hrow]
    exact and_iff_right hblanks

theorem shows_line (h : row ∈ rows) :
    Shows rows lead sep row (line rows lead sep row).toList where
  whole k cell hk htext hbehind := by
    obtain ⟨after, hdrop, hblank⟩ := exists_drop_line h hk htext
    have hne : Text.trimEnd after ≠ [] := fun hnil =>
      hbehind (hblank.1 (Text.trimEnd_eq_nil_iff.1 hnil))
    rw [hdrop, Text.trimEnd_append hne]
    exact List.prefix_append _ _
  last k cell hk htext hbehind := by
    obtain ⟨after, hdrop, hblank⟩ := exists_drop_line h hk htext
    rw [hdrop, Text.trimEnd_append_blanks (hblank.2 hbehind)]
  filled k cell hk hlater := by
    have hpadded := List.forall₂_drop (k + 1) (forall₂_padded h)
    obtain ⟨rest, hbehind, c, hc, hblank⟩ := exists_behindSeparators hpadded sep hlater
    have hdrop := drop_line lead h hk
      (congrArg ((pad cell ' ' ((widths rows).getD k 0)).toList ++ ·) hbehind)
      ⟨c, List.mem_append_right _ (List.mem_append_right _ hc), hblank⟩
    rw [hdrop, ← List.append_assoc, Text.trimEnd_append (Text.trimEnd_ne_nil ⟨c, hc, hblank⟩), pad,
      String.toList_append, String.toList_ofList]
    exact List.prefix_append _ _
  opened := by
    rintro ⟨cell, hmem, c, hc, hblank⟩
    obtain ⟨k, hk⟩ := List.mem_iff_getElem?.1 hmem
    obtain ⟨before, hparts, -⟩ := exists_before h hk sep
    have hin : c ∈ (sep.intercalate (filling rows row)).toList := by
      rw [hparts, pad, String.toList_append]
      exact List.mem_append_right _ (List.mem_append_left _ (List.mem_append_left _ hc))
    rw [toList_line, Text.trimEnd_append (Text.trimEnd_ne_nil ⟨c, hin, hblank⟩)]
    exact List.prefix_append _ _

theorem oneLine_of_mem_lines (hlead : OneLine lead) (hsep : OneLine sep)
    (hrows : ∀ row ∈ rows, ∀ cell ∈ row, OneLine cell) :
    ∀ l ∈ lines rows lead sep, OneLine l := by
  simp only [oneLine_iff] at hlead hsep hrows ⊢
  exact forall_mem_lines (by decide) hlead hsep hrows

end Line

/-- Without line feeds in what is laid out, there is one line for each row, with its cells at the
starts of their columns. -/
theorem aligned_of_oneLine (hlead : OneLine lead) (hsep : OneLine sep)
    (hrows : ∀ row ∈ rows, ∀ cell ∈ row, OneLine cell) : ∃ ls, Aligned rows lead sep ls := by
  refine ⟨(lines rows lead sep).map String.toList, ?_, ?_, ?_, ?_, ?_, ?_⟩
  · exact pieces_unlines (oneLine_of_mem_lines hlead hsep hrows)
  · rw [lines_eq, List.map_map, List.forall_mem_map]
    intro row hrow c hc
    rw [Function.comp_apply, toList_line] at hc
    exact Text.getLast?_trimEnd hc
  · rw [lines_eq, List.map_map, List.forall₂_map_right_iff, List.forall₂_same]
    exact fun row hrow => shows_line hrow
  · exact fun j hj => isGreatest_getElem_widths hj
  · exact fun row hrow => length_le_widths hrow
  · exact guardedLines_eq rows lead sep

theorem ragged_aligned : ∃ (rows : List Row) (lead sep : String), OneLine lead ∧ OneLine sep ∧
    (∀ row ∈ rows, ∀ cell ∈ row, OneLine cell) ∧
    lines rows lead sep = ["> Größe | Ω  | x", ">", ">   a   |    | b", "> \t     | c"] ∧
    (List.range 3).map (start rows lead sep) = [2, 10, 15] ∧
    ∃ ls, Aligned rows lead sep ls := by
  have hlead : OneLine "> " := by decide
  have hsep : OneLine " | " := by decide
  have hrows : ∀ row ∈ [["Größe", "Ω ", "x "], [], ["  a", "", "b"], ["\t", "c "]],
      ∀ cell ∈ row, OneLine cell := by decide +kernel
  exact ⟨_, _, _, hlead, hsep, hrows, by decide +kernel, by decide +kernel,
    aligned_of_oneLine hlead hsep hrows⟩

end RegAtlas.Columns
