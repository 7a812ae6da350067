import RegAtlas.Numeral
import RegAtlas.Register
import RegAtlas.Text.Columns

namespace RegAtlas.Markdown

structure LayoutColumn where
  bits : String
  field : String
  access : String
  value : String
  decode : String

def decodeField (f : Field) (registerValue : Word) : String :=
  let value := (f.extract registerValue).toOption.getD Word.zero
  match f.enumeration, f.entryByValue value with
  | some _, some entry => s!"{entry.name} ({Numeral.hexUpper value})"
  | some _, none => "ERROR"
  | none, _ => "?"

def layoutColumn (v : Word) (range : BitRange) (segment : Segment) : LayoutColumn :=
  let value := range.extract v
  let shown := Numeral.hexUpper value
  match segment with
  | .field f =>
    let access := f.accessText
    ⟨range.text, f.name, if access.isEmpty then "?" else access, shown, decodeField f v⟩
  | .alwaysWrite expected =>
    ⟨range.text, s!"Always write {Numeral.hex expected}", "", shown,
      if value = expected then "OK" else "ERROR"⟩
  | .unused => ⟨range.text, "?", "?", shown, "?"⟩

/-- Without a register value the rows are bits, field and access. With one they are bits, field,
value and meaning. -/
def layoutTable (r : Register) (value : Option Word) : List Columns.Row :=
  let columns := r.bitLayout.map fun s => layoutColumn (value.getD Word.zero) s.1 s.2
  let row (title : String) (cell : LayoutColumn → String) := title :: columns.map cell
  match value with
  | some _ => [row "Bits:" (·.bits), row "Field:" (·.field), row "Value:" (·.value),
      row "Decode:" (·.decode)]
  | none => [row "Bits:" (·.bits), row "Field:" (·.field), row "Access:" (·.access)]

end RegAtlas.Markdown
