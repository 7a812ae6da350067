import RegAtlas.Generator.Setting
import RegAtlas.Markdown.LayoutTable
import RegAtlas.Markdown.Table

namespace RegAtlas.Markdown.Datasheet

def paragraphs (texts : List String) : List String := texts.flatMap fun t => ["", t]

def titleLines (m : RegisterMap) (s : Setting) : List String :=
  (s!"# {m.name} Register Map" :: m.docs.multiLine "") ++
    paragraphs ((m.author.map ("Author: " ++ ·)).toList ++ (m.note.map ("Note: " ++ ·)).toList ++
      (s.inputName.map fun name => "*Generated from " ++ name ++ ".*").toList) ++ [""]

def overviewRow (r : Register) : Columns.Row :=
  [r.address.elim "-" Numeral.hexUpper, r.name,
    ", ".intercalate (r.fieldsByPosition.map (·.name))]

def overviewLines (registers : List Register) : List String :=
  ["## Overview", ""] ++
    table (["Address", "Register", "Fields"] :: registers.map overviewRow) ++ [""]

def entryLine (e : EnumEntry) : String :=
  let value := s!"      - {e.name}: {Numeral.hexUpper e.value}"
  e.docs.brief.elim value fun brief => value ++ " (" ++ brief ++ ")"

def enumLines (e : Enumeration) : List String :=
  (if e.shared then s!"    - Accepts ({e.name}):" else "    - Accepts:") ::
    e.entriesByValue.map entryLine

def fieldLines (f : Field) : List String :=
  let access := if f.accessText.isEmpty then "" else " [" ++ f.accessText ++ "]"
  ["", "  - " ++ f.name ++ access ++ ":"] ++ f.docs.twoLine "    - " ++
    f.enumeration.elim [] enumLines

def factLines (r : Register) : List String :=
  r.docs.twoLine " - " ++
    (r.address.map fun a => s!" - Address: {Numeral.hexUpper a}").toList ++
    (r.resetValue.map fun v => s!" - Reset Val: {Numeral.hexUpper v}").toList ++
    (r.origin.map fun o =>
      s!" - Template: {o.template} of block {o.block}, instance {o.instanceName}").toList

def registerLines (r : Register) : List String :=
  [s!"### {r.name}", ""] ++ factLines r ++ [""] ++ table (layoutTable r none) ++
    (if r.fields.isEmpty then []
      else ["", "*Bitfields*:"] ++ r.fieldsByPosition.flatMap fieldLines) ++
    ["", "---"]

def lines (m : RegisterMap) (s : Setting) : List String :=
  let registers := m.registersByAddress
  titleLines m s ++ overviewLines registers ++ ["## Registers"] ++
    registers.flatMap fun r => "" :: registerLines r

end RegAtlas.Markdown.Datasheet
