import RegAtlas.Proofs.Text
import RegAtlas.Text.Columns
import Mathlib.Order.Bounds.Defs
import Mathlib.Order.Lattice
import Mathlib.Order.MinMax

namespace RegAtlas.Columns

variable {rows : List Row} {row : Row} {i k : Nat}

theorem length_pad (s : String) (fill : Char) (width : Nat) :
    (pad s fill width).length = max s.length width := by
  rw [pad, String.length_append, String.length_ofList, List.length_replicate]
  omega

theorem length_widen (vs ws : List Nat) : (widen vs ws).length = max vs.length ws.length := by
  fun_induction widen vs ws with
  | case1 ws => simp
  | case2 vs => simp
  | case3 v vs w ws ih => simp [ih, Nat.succ_max_succ]

theorem getD_widen (vs ws : List Nat) (i : Nat) :
    (widen vs ws).getD i 0 = max (vs.getD i 0) (ws.getD i 0) := by
  fun_induction widen vs ws generalizing i with
  | case1 ws => simp
  | case2 vs => simp
  | case3 v vs w ws ih =>
    cases i with
    | zero => rfl
    | succ i => exact ih i

theorem widths_le_iff {f : List Nat → Nat} (hnil : f [] = 0)
    (hf : ∀ vs ws, f (widen vs ws) = max (f vs) (f ws)) :
    f (widths rows) ≤ k ↔ ∀ row ∈ rows, f (row.map String.length) ≤ k := by
  have fold (ws : List Nat) :
      f (rows.foldl (fun ws row => widen ws (row.map String.length)) ws) ≤ k ↔
        f ws ≤ k ∧ ∀ row ∈ rows, f (row.map String.length) ≤ k := by
    induction rows generalizing ws with
    | nil => simp
    | cons row rows ih =>
      rw [List.foldl_cons, ih, hf, max_le_iff, List.forall_mem_cons, and_assoc]
  rw [widths, fold, hnil]
  exact and_iff_right (Nat.zero_le k)

theorem length_widths_le_iff : (widths rows).length ≤ k ↔ ∀ row ∈ rows, row.length ≤ k := by
  simpa using widths_le_iff (f := List.length) rfl length_widen

theorem getD_widths_le_iff :
    (widths rows).getD i 0 ≤ k ↔ ∀ row ∈ rows, (row.map String.length).getD i 0 ≤ k :=
  widths_le_iff (f := (·.getD i 0)) rfl fun vs ws => getD_widen vs ws i

theorem length_le_widths (h : row ∈ rows) : row.length ≤ (widths rows).length :=
  length_widths_le_iff.1 le_rfl row h

theorem getD_le_widths (h : row ∈ rows) (i : Nat) :
    (row.map String.length).getD i 0 ≤ (widths rows).getD i 0 :=
  getD_widths_le_iff.1 le_rfl row h

theorem exists_widths_eq {f : List Nat → Nat} (hnil : f [] = 0)
    (hf : ∀ vs ws, f (widen vs ws) = max (f vs) (f ws)) (hpos : 0 < f (widths rows)) :
    ∃ row ∈ rows, f (row.map String.length) = f (widths rows) := by
  by_contra hnone
  have hbound : ∀ row ∈ rows, f (row.map String.length) ≤ f (widths rows) :=
    (widths_le_iff hnil hf).1 le_rfl
  have hless : f (widths rows) ≤ f (widths rows) - 1 := by
    refine (widths_le_iff hnil hf).2 fun row hrow => ?_
    have hle := hbound row hrow
    have hne : f (row.map String.length) ≠ f (widths rows) := fun h => hnone ⟨row, hrow, h⟩
    omega
  omega

theorem isGreatest_length_widths (hne : rows ≠ []) :
    IsGreatest {n | ∃ row ∈ rows, row.length = n} (widths rows).length := by
  constructor
  · obtain hzero | hpos := Nat.eq_zero_or_pos (widths rows).length
    · obtain ⟨row, hrow⟩ := List.exists_mem_of_ne_nil rows hne
      have hle := length_le_widths hrow
      exact ⟨row, hrow, by omega⟩
    · obtain ⟨row, hrow, hlength⟩ := exists_widths_eq (f := List.length) rfl length_widen hpos
      exact ⟨row, hrow, by rwa [List.length_map] at hlength⟩
  · rintro n ⟨row, hrow, rfl⟩
    exact length_le_widths hrow

theorem getD_map_length {cell : String} (h : row[i]? = some cell) :
    (row.map String.length).getD i 0 = cell.length := by
  rw [List.getD_eq_getElem?_getD, List.getElem?_map, h]
  rfl

theorem exists_cell (hi : i < (widths rows).length) :
    ∃ row ∈ rows, ∃ cell, row[i]? = some cell := by
  by_contra hnone
  have hshort : ∀ row ∈ rows, row.length ≤ i := by
    intro row hrow
    by_contra hlong
    exact hnone ⟨row, hrow, row[i], List.getElem?_eq_getElem (not_le.1 hlong)⟩
  exact absurd hi (not_lt.2 (length_widths_le_iff.2 hshort))

theorem isGreatest_getElem_widths (hi : i < (widths rows).length) :
    IsGreatest {n | ∃ row ∈ rows, ∃ cell, row[i]? = some cell ∧ cell.length = n}
      (widths rows)[i] := by
  have hwidth : (widths rows).getD i 0 = (widths rows)[i] := by
    rw [List.getD_eq_getElem?_getD, List.getElem?_eq_getElem hi, Option.getD_some]
  rw [← hwidth]
  constructor
  · obtain hzero | hpos := Nat.eq_zero_or_pos ((widths rows).getD i 0)
    · obtain ⟨row, hrow, cell, hcell⟩ := exists_cell hi
      have hle := getD_le_widths hrow i
      rw [getD_map_length hcell] at hle
      exact ⟨row, hrow, cell, hcell, by omega⟩
    · obtain ⟨row, hrow, hlength⟩ := exists_widths_eq (f := (·.getD i 0)) rfl
        (fun vs ws => getD_widen vs ws i) hpos
      cases hcell : row[i]? with
      | none =>
        rw [List.getD_eq_getElem?_getD, List.getElem?_map, hcell] at hlength
        exact absurd hlength hpos.ne
      | some cell => exact ⟨row, hrow, cell, hcell, (getD_map_length hcell).symm.trans hlength⟩
  · rintro n ⟨row, hrow, cell, hcell, rfl⟩
    exact (getD_map_length hcell).symm.trans_le (getD_le_widths hrow i)

section Characters

variable {p : Char → Prop} {fill : Char} {lead sep s : String}

theorem forall_mem_pad (h : ∀ c ∈ s.toList, p c) (hfill : p fill) (width : Nat) :
    ∀ c ∈ (pad s fill width).toList, p c := by
  rw [pad, String.toList_append, String.toList_ofList, List.forall_mem_append]
  refine ⟨h, fun c hc => ?_⟩
  rwa [List.eq_of_mem_replicate hc]

theorem forall_mem_lines (hspace : p ' ') (hlead : ∀ c ∈ lead.toList, p c)
    (hsep : ∀ c ∈ sep.toList, p c) (hrows : ∀ row ∈ rows, ∀ cell ∈ row, ∀ c ∈ cell.toList, p c) :
    ∀ l ∈ lines rows lead sep, ∀ c ∈ l.toList, p c := by
  refine List.forall_mem_map.2 fun row hrow c hc => ?_
  have hparts : ∀ part ∈ List.zipWith (fun cell w => pad cell ' ' w) row (widths rows),
      ∀ c ∈ part.toList, p c := by
    intro part hpart
    rw [← List.map_uncurry_zip_eq_zipWith] at hpart
    obtain ⟨⟨cell, w⟩, hmem, rfl⟩ := List.mem_map.1 hpart
    exact forall_mem_pad (hrows row hrow cell (List.of_mem_zip hmem).1) hspace w
  have hline := (toList_trimmedEnd_isPrefix _).subset hc
  rw [String.toList_append] at hline
  exact List.forall_mem_append.2 ⟨hlead, forall_mem_intercalate hsep hparts⟩ c hline

end Characters

end RegAtlas.Columns
