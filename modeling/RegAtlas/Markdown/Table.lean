import RegAtlas.Text.Columns

namespace RegAtlas.Markdown

/-- Every column is at least as wide as the shortest rule that marks it as centred. -/
def tableWidths (rows : List Columns.Row) : List Nat := (Columns.widths rows).map (max 3)

def tableRow : List Nat → Columns.Row → String
  | [], _ => ""
  | w :: ws, [] => " " ++ Columns.pad "" ' ' w ++ " |" ++ tableRow ws []
  | w :: ws, cell :: row => " " ++ Columns.pad cell ' ' w ++ " |" ++ tableRow ws row

def tableRule (ws : List Nat) : String :=
  String.join (ws.map fun w => ":" ++ String.ofList (List.replicate w '-') ++ ":|")

def table : List Columns.Row → List String
  | [] => []
  | header :: rows =>
    let ws := tableWidths (header :: rows)
    ("|" ++ tableRow ws header) :: ("|" ++ tableRule ws) :: rows.map fun r => "|" ++ tableRow ws r

end RegAtlas.Markdown
