import RegAtlas.Text.Basic

namespace RegAtlas.Columns

abbrev Row := List String

def pad (s : String) (fill : Char) (width : Nat) : String :=
  s ++ String.ofList (List.replicate (width - s.length) fill)

def widen : List Nat → List Nat → List Nat
  | [], ws => ws
  | vs, [] => vs
  | v :: vs, w :: ws => max v w :: widen vs ws

def widths (rows : List Row) : List Nat :=
  rows.foldl (fun ws row => widen ws (row.map String.length)) []

/-- One line for each row: its cells padded to the widths of their columns, without the blanks at
the end. -/
def lines (rows : List Row) (lead sep : String) : List String :=
  let ws := widths rows
  rows.map fun row =>
    trimmedEnd (lead ++ sep.intercalate (List.zipWith (fun cell w => pad cell ' ' w) row ws))

end RegAtlas.Columns
