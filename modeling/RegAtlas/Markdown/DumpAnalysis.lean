import RegAtlas.Generator.Setting
import RegAtlas.Journal
import RegAtlas.Markdown.LayoutTable
import RegAtlas.Markdown.Table

namespace RegAtlas.Markdown.DumpAnalysis

def valueLines (v : Word) : List String :=
  ["", "  - " ++ Numeral.hexUpper v, "  - " ++ Numeral.binary v]

def entryLines (f : Field) (value : Word) : List String :=
  match f.enumeration, f.entryByValue value with
  | none, _ => []
  | some _, some entry => s!"    - *SELECTED*: {entry.name}" :: entry.docs.twoLine "      - "
  | some _, none => ["    - *ERROR*: Value does not correspond to any enum entry."]

def fieldLines (registerValue : Word) (f : Field) : Except GenerateError (List String) := do
  let value ← (f.extract registerValue).mapError .bit
  return (s!"  - {f.name}: {Numeral.hexUpper value}" :: f.docs.twoLine "    - ") ++
    entryLines f value

def registerLines (r : Register) (value : Word) : Except GenerateError (List String) := do
  let fields ← r.fieldsByPosition.mapM (fieldLines value)
  return valueLines value ++ [""] ++ table (layoutTable r (some value)) ++
    if r.fields.isEmpty then [] else ["", "*Bitfields*:", ""] ++ fields.flatten

def sectionLines (m : RegisterMap) (address value : Word) : Logged GenerateError (List String) := do
  let title (name : String) : List String := ["", s!"## {Numeral.hexUpper address} - {name}"]
  match m.registerAt address with
  | some r =>
    let body ← (registerLines r value : Except GenerateError (List String))
    return title r.name ++ body
  | none =>
    Logged.report (.noRegister address)
    return title "?" ++ valueLines value

def lines (m : RegisterMap) (d : Dump) : Logged GenerateError (List String) := do
  Logged.report (.decodingDump d.size)
  let sections ← d.entries.mapM fun (address, value) => sectionLines m address value
  return s!"# {m.name} Register Dump Analysis" :: sections.flatten

end RegAtlas.Markdown.DumpAnalysis
