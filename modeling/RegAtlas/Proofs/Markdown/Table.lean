import RegAtlas.Proofs.Columns
import RegAtlas.Proofs.Markdown.Lines

namespace RegAtlas.Markdown

variable {parts others : List (List Char)} {k l : List Char} {rows : List Columns.Row}
  {row cells : Columns.Row} {ws : List Nat} {w : Nat} {cell : String}

section Bars

def barred (parts : List (List Char)) : List Char := '|' :: parts.flatMap (· ++ ['|'])

theorem splitOn_barred (h : ∀ part ∈ parts, '|' ∉ part) :
    (barred parts).splitOn '|' = [] :: parts ++ [[]] := by
  have hbehind : (parts.flatMap (· ++ ['|'])).splitOn '|' = parts ++ [[]] := by
    induction parts with
    | nil => rfl
    | cons part parts ih =>
      obtain ⟨hpart, hparts⟩ := List.forall_mem_cons.1 h
      have hnone : ∀ c ∈ part, (c == '|') = false := by
        intro c hc
        exact beq_eq_false_iff_ne.2 fun heq => hpart (heq ▸ hc)
      rw [List.flatMap_cons, List.append_assoc, List.singleton_append, List.splitOn,
        List.splitOnP_append_cons_of_forall_mem hnone '|' rfl, ← List.splitOn, ih hparts,
        List.cons_append]
  have hfirst : (barred parts).splitOn '|' = [] :: (parts.flatMap (· ++ ['|'])).splitOn '|' :=
    List.splitOnP_append_cons_of_forall_mem (List.forall_mem_nil _) '|' rfl _
  rw [hfirst, hbehind, List.cons_append]

theorem bars_barred (h : ∀ part ∈ parts, '|' ∉ part) : (barred parts).map (· == '|') =
    true :: (parts.map List.length).flatMap fun n => List.replicate n false ++ [true] := by
  have hpart : ∀ part ∈ parts,
      (part ++ ['|']).map (· == '|') = List.replicate part.length false ++ [true] := by
    intro part hpart
    have hnone : part.map (· == '|') = part.map fun _ => false := by
      refine List.map_congr_left fun c hc => beq_eq_false_iff_ne.2 ?_
      rintro rfl
      exact h part hpart hc
    rw [List.map_append, hnone, List.map_const']
    rfl
  rw [barred, List.map_cons, List.map_flatMap, List.flatMap_map]
  exact congrArg (true :: ·) (List.flatMap_congr hpart)

theorem count_barred (h : ∀ part ∈ parts, '|' ∉ part) :
    (barred parts).count '|' = parts.length + 1 := by
  have hpart : ∀ part ∈ parts, (part ++ ['|']).count '|' = 1 := by
    intro part hpart
    rw [List.count_append, List.count_eq_zero.2 (h part hpart)]
    rfl
  have hcounts : parts.map (List.count '|' ∘ (· ++ ['|'])) = parts.map fun _ => 1 :=
    List.map_congr_left hpart
  rw [barred, List.count_cons_self, List.count_flatMap, hcounts]
  simp

/-- Parts that leave room for two characters more than their columns are wide, and hold no bar. -/
structure Between (ws : List Nat) (parts : List (List Char)) : Prop where
  lengths : parts.map List.length = ws.map (· + 2)
  bar : ∀ part ∈ parts, '|' ∉ part

theorem Between.count (h : Between ws parts) : (barred parts).count '|' = ws.length + 1 := by
  have hlength := congrArg List.length h.lengths
  rw [List.length_map, List.length_map] at hlength
  rw [count_barred h.bar, hlength]

theorem Between.aligned (hparts : Between ws parts) (hothers : Between ws others) :
    (barred parts).map (· == '|') = (barred others).map (· == '|') := by
  rw [bars_barred hparts.bar, bars_barred hothers.bar, hparts.lengths, hothers.lengths]

end Bars

section Parts

def framed (w : Nat) (cell : String) : List Char :=
  ' ' :: (Columns.pad cell ' ' w).toList ++ [' ']

def dashed (w : Nat) : List Char := ':' :: List.replicate w '-' ++ [':']

/-- A cell that nothing in a table can be mistaken for. -/
structure PlainCell (cell : String) : Prop where
  bar : '|' ∉ cell.toList
  oneLine : OneLine cell
  trimmed : Text.Trimmed cell.toList

instance (cell : String) : Decidable (PlainCell cell) :=
  decidable_of_iff ('|' ∉ cell.toList ∧ OneLine cell ∧ Text.Trimmed cell.toList)
    ⟨fun h => ⟨h.1, h.2.1, h.2.2⟩, fun h => ⟨h.bar, h.oneLine, h.trimmed⟩⟩

theorem length_framed (h : cell.length ≤ w) : (framed w cell).length = w + 2 := by
  have hpad : (Columns.pad cell ' ' w).toList.length = w := by
    rw [String.length_toList, Columns.length_pad, max_eq_right h]
  rw [framed, List.cons_append, List.length_cons, List.length_append, hpad]
  rfl

theorem PlainCell.bar_framed (h : PlainCell cell) : '|' ∉ framed w cell := by
  simp [framed, Columns.pad, h.bar]

theorem PlainCell.trim_framed (h : PlainCell cell) : Text.trim (framed w cell) = cell.toList := by
  have hblank : Text.isBlank ' ' = true := by decide
  have hpadded : framed w cell =
      [' '] ++ cell.toList ++ List.replicate (w - cell.length + 1) ' ' := by
    simp [framed, Columns.pad, List.replicate_succ']
  rw [hpadded]
  refine h.trimmed.trim_padded (List.forall_mem_singleton.2 hblank) fun c hc => ?_
  rwa [List.eq_of_mem_replicate hc]

theorem PlainCell.rightpad {n : Nat} (h : ∀ cell ∈ row, PlainCell cell) :
    ∀ cell ∈ row.rightpad n "", PlainCell cell := by
  intro cell hcell
  obtain hcell | hcell := List.mem_append.1 hcell
  · exact h cell hcell
  · rw [List.eq_of_mem_replicate hcell]
    exact ⟨List.not_mem_nil, List.not_mem_nil, .of_not_blank (List.forall_mem_nil _)⟩

end Parts

section Lines

theorem toList_tableRow (ws : List Nat) (row : Columns.Row) : ("|" ++ tableRow ws row).toList =
    barred (List.zipWith framed ws (row.rightpad ws.length "")) := by
  have hbehind : (tableRow ws row).toList =
      (List.zipWith framed ws (row.rightpad ws.length "")).flatMap (· ++ ['|']) := by
    induction ws generalizing row with
    | nil => rfl
    | cons w ws ih =>
      have hcell (cell text : String) : (" " ++ Columns.pad cell ' ' w ++ " |" ++ text).toList =
          framed w cell ++ ['|'] ++ text.toList := by
        simp [framed]
      cases row with
      | nil =>
        rw [tableRow, hcell, ih]
        simp [List.rightpad, List.replicate_succ]
      | cons cell row =>
        rw [tableRow, hcell, ih]
        simp [List.rightpad]
  rw [String.toList_append, hbehind]
  rfl

theorem toList_tableRule (ws : List Nat) :
    ("|" ++ tableRule ws).toList = barred (ws.map dashed) := by
  rw [String.toList_append, tableRule, String.toList_join, List.flatMap_map, barred,
    List.flatMap_map]
  simp [dashed]

theorem between_dashed (ws : List Nat) : Between ws (ws.map dashed) where
  lengths := by simp [dashed]
  bar := by simp [dashed]

/-- A cell for each column, none wider than its column. -/
abbrev Fits (ws : List Nat) (cells : Columns.Row) : Prop :=
  List.Forall₂ (fun w cell => cell.length ≤ w) ws cells

theorem Fits.rightpad (h : row.length ≤ ws.length)
    (hwidth : ∀ i, (row.map String.length).getD i 0 ≤ ws.getD i 0) :
    Fits ws (row.rightpad ws.length "") := by
  induction ws generalizing row with
  | nil =>
    rw [List.length_eq_zero_iff.1 (Nat.le_zero.1 h)]
    exact .nil
  | cons w ws ih =>
    cases row with
    | nil =>
      have hrest : Fits ws (List.rightpad ws.length "" []) :=
        ih (Nat.zero_le _) fun i => Nat.zero_le _
      exact .cons (Nat.zero_le w) hrest
    | cons cell row =>
      have hrest := ih (Nat.le_of_succ_le_succ h) fun i => hwidth (i + 1)
      simp only [List.rightpad, List.length_cons, Nat.add_sub_add_right, List.cons_append]
      exact .cons (hwidth 0) hrest

theorem fits_tableWidths (h : row ∈ rows) :
    Fits (tableWidths rows) (row.rightpad (tableWidths rows).length "") := by
  refine .rightpad ((Columns.length_le_widths h).trans_eq (List.length_map _).symm) fun i => ?_
  refine (Columns.getD_le_widths h i).trans ?_
  rw [tableWidths, List.getD_eq_getElem?_getD, List.getD_eq_getElem?_getD, List.getElem?_map]
  cases (Columns.widths rows)[i]? with
  | none => exact le_rfl
  | some w => exact le_max_right 3 w

/-- The parts for a row: what stands in them is its cells. -/
structure Holds (ws : List Nat) (cells : Columns.Row) (parts : List (List Char)) : Prop
    extends Between ws parts where
  trims : parts.map Text.trim = cells.map String.toList

theorem Fits.holds (h : Fits ws cells) (hplain : ∀ cell ∈ cells, PlainCell cell) :
    Holds ws cells (List.zipWith framed ws cells) := by
  induction h with
  | nil => exact ⟨⟨rfl, List.forall_mem_nil _⟩, rfl⟩
  | @cons w cell ws cells hcell hcells ih =>
    obtain ⟨hhead, htail⟩ := List.forall_mem_cons.1 hplain
    obtain ⟨⟨hlengths, hbar⟩, htrims⟩ := ih htail
    refine ⟨⟨?_, List.forall_mem_cons.2 ⟨hhead.bar_framed, hbar⟩⟩, ?_⟩
    · rw [List.zipWith_cons_cons, List.map_cons, length_framed hcell, hlengths, List.map_cons]
    · rw [List.zipWith_cons_cons, List.map_cons, hhead.trim_framed, htrims, List.map_cons]

theorem exists_holds (h : row ∈ rows) (hplain : ∀ row ∈ rows, ∀ cell ∈ row, PlainCell cell) :
    ∃ parts, ("|" ++ tableRow (tableWidths rows) row).toList = barred parts ∧
      Holds (tableWidths rows) (row.rightpad (tableWidths rows).length "") parts :=
  ⟨_, toList_tableRow _ row, (fits_tableWidths h).holds (.rightpad (hplain row h))⟩

theorem exists_between (h : l ∈ (table rows).map String.toList)
    (hplain : ∀ row ∈ rows, ∀ cell ∈ row, PlainCell cell) :
    ∃ parts, l = barred parts ∧ Between (tableWidths rows) parts := by
  have hrow : ∀ row ∈ rows, ∃ parts,
      ("|" ++ tableRow (tableWidths rows) row).toList = barred parts ∧
        Between (tableWidths rows) parts := by
    intro row hrow
    obtain ⟨parts, heq, hholds⟩ := exists_holds hrow hplain
    exact ⟨parts, heq, hholds.toBetween⟩
  cases rows with
  | nil => exact absurd h List.not_mem_nil
  | cons header body =>
    obtain ⟨hheader, hbody⟩ := List.forall_mem_cons.1 hrow
    obtain ⟨s, hs, rfl⟩ := List.mem_map.1 h
    obtain rfl | hs := List.mem_cons.1 hs
    · exact hheader
    obtain rfl | hs := List.mem_cons.1 hs
    · exact ⟨_, toList_tableRule _, between_dashed _⟩
    obtain ⟨row, hmem, rfl⟩ := List.mem_map.1 hs
    exact hbody row hmem

theorem count_line (h : l ∈ (table rows).map String.toList)
    (hplain : ∀ row ∈ rows, ∀ cell ∈ row, PlainCell cell) :
    l.count '|' = (tableWidths rows).length + 1 := by
  obtain ⟨parts, rfl, hparts⟩ := exists_between h hplain
  exact hparts.count

theorem aligned_lines (hk : k ∈ (table rows).map String.toList)
    (hl : l ∈ (table rows).map String.toList)
    (hplain : ∀ row ∈ rows, ∀ cell ∈ row, PlainCell cell) :
    k.map (· == '|') = l.map (· == '|') := by
  obtain ⟨parts, rfl, hparts⟩ := exists_between hk hplain
  obtain ⟨others, rfl, hothers⟩ := exists_between hl hplain
  exact hparts.aligned hothers

end Lines

/-- The line of a row, read back: its cells, and empty ones up to the number of columns. -/
def RowLine (columns : Nat) (row : Columns.Row) (l : List Char) : Prop :=
  (l.splitOn '|').map Text.trim = [] :: (row.rightpad columns "").map String.toList ++ [[]]

/-- The line below the header: at least three dashes in each column. -/
def RuleLine (columns : Nat) (l : List Char) : Prop :=
  ∃ widths : List Nat, widths.length = columns ∧ (∀ w ∈ widths, 3 ≤ w) ∧
    l.splitOn '|' = [] :: widths.map dashed ++ [[]]

theorem rowLine_tableRow (h : row ∈ rows) (hplain : ∀ row ∈ rows, ∀ cell ∈ row, PlainCell cell) :
    RowLine (tableWidths rows).length row ("|" ++ tableRow (tableWidths rows) row).toList := by
  obtain ⟨parts, heq, hholds⟩ := exists_holds h hplain
  rw [RowLine, heq, splitOn_barred hholds.bar, List.map_append, List.map_cons, hholds.trims]
  rfl

theorem ruleLine_tableRule (rows : List Columns.Row) :
    RuleLine (tableWidths rows).length ("|" ++ tableRule (tableWidths rows)).toList := by
  refine ⟨tableWidths rows, rfl, List.forall_mem_map.2 fun w _ => le_max_left 3 w, ?_⟩
  rw [toList_tableRule, splitOn_barred (between_dashed _).bar]

/-- The table of `rows` is a rectangle: the lines `header`, `rule` and `body`, cut by bars into
`columns` columns. -/
structure Rectangle (rows : List Columns.Row) (columns : Nat) (header rule : List Char)
    (body : List (List Char)) : Prop where
  text : Text.pieces (unlines (table rows)).toList = header :: rule :: body ++ [[]]
  longest : IsGreatest {n | ∃ row ∈ rows, row.length = n} columns
  width : ∀ l ∈ rule :: body, l.length = header.length
  bars : ∀ l ∈ header :: rule :: body, l.count '|' = columns + 1
  aligned : ∀ l ∈ rule :: body, l.map (· == '|') = header.map (· == '|')
  readBack : List.Forall₂ (RowLine columns) rows (header :: body)
  ruled : RuleLine columns rule

/-- Rows of any lengths make a rectangle, as wide as the longest of them, and are read back from
it. -/
theorem table_rectangle (hne : rows ≠ []) (hplain : ∀ row ∈ rows, ∀ cell ∈ row, PlainCell cell) :
    ∃ columns header rule body, Rectangle rows columns header rule body := by
  have hlongest : IsGreatest {n | ∃ row ∈ rows, row.length = n} (tableWidths rows).length := by
    rw [tableWidths, List.length_map]
    exact Columns.isGreatest_length_widths hne
  have hone : ∀ l ∈ table rows, OneLine l := fun l hl =>
    (inner_table (fun row hrow cell hcell => (hplain row hrow cell hcell).oneLine) l hl).1
  have hrows : ∀ row ∈ rows, RowLine (tableWidths rows).length row
      ("|" ++ tableRow (tableWidths rows) row).toList :=
    fun row hrow => rowLine_tableRow hrow hplain
  obtain ⟨header, body, rfl⟩ := List.exists_cons_of_ne_nil hne
  let line (row : Columns.Row) : List Char :=
    ("|" ++ tableRow (tableWidths (header :: body)) row).toList
  let rule : List Char := ("|" ++ tableRule (tableWidths (header :: body))).toList
  have hlines : (table (header :: body)).map String.toList =
      line header :: rule :: body.map line := by
    rw [table, List.map_cons, List.map_cons, List.map_map]
    rfl
  have hheader : ∀ l ∈ rule :: body.map line,
      l.map (· == '|') = (line header).map (· == '|') := by
    intro l hl
    refine aligned_lines ?_ ?_ hplain
    · rw [hlines]
      exact List.mem_cons_of_mem _ hl
    · rw [hlines]
      exact List.mem_cons_self
  refine ⟨_, line header, rule, body.map line, ?_, hlongest, ?_, ?_, hheader, ?_,
    ruleLine_tableRule _⟩
  · rw [pieces_unlines hone, hlines]
  · intro l hl
    simpa using congrArg List.length (hheader l hl)
  · intro l hl
    exact count_line (hlines ▸ hl) hplain
  · have hmap : List.Forall₂ (RowLine _) (header :: body) ((header :: body).map line) :=
      List.forall₂_map_right_iff.2 (List.forall₂_same.2 hrows)
    exact hmap

theorem ragged_rectangle : ∃ rows : List Columns.Row, rows ≠ [] ∧
    (∀ row ∈ rows, ∀ cell ∈ row, PlainCell cell) ∧
    table rows = ["| Bits: | 7-4 | 3   |", "|:-----:|:---:|:---:|", "| Größe |     |     |",
      "|       |     |     |", "| Ωμ    |     | x y |"] ∧
    ∃ columns header rule body, Rectangle rows columns header rule body := by
  have hplain : ∀ row ∈ [["Bits:", "7-4", "3"], ["Größe"], [], ["Ωμ", "", "x y"]],
      ∀ cell ∈ row, PlainCell cell := by decide +kernel
  exact ⟨_, List.cons_ne_nil _ _, hplain, by decide +kernel,
    table_rectangle (List.cons_ne_nil _ _) hplain⟩

end RegAtlas.Markdown
