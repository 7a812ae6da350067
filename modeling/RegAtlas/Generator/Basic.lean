import RegAtlas.CHeader.FuncPack
import RegAtlas.CHeader.MacroMap
import RegAtlas.CHeader.Printer
import RegAtlas.Markdown.Datasheet
import RegAtlas.Markdown.DumpAnalysis

namespace RegAtlas

inductive Generator where
  | macroMap
  | funcPack
  | datasheet
  | dumpAnalysis
deriving Repr, DecidableEq

namespace Generator

def all : List Generator := [macroMap, funcPack, datasheet, dumpAnalysis]

def name : Generator → String
  | macroMap => "c.macromap"
  | funcPack => "c.funcpack"
  | datasheet => "md.datasheet"
  | dumpAnalysis => "md.regdumpanalysis"

def description : Generator → String
  | macroMap => "C header with traditional register and field macros."
  | funcPack => "C header with register structs and pack/unpack functions."
  | datasheet => "Markdown register documentation."
  | dumpAnalysis => "Markdown register dump decode."

def named? (name : String) : Option Generator := all.find? (·.name == name)

def lines (g : Generator) (m : RegisterMap) (s : Setting) : Logged GenerateError (List String) :=
  match g with
  | macroMap => liftM ((CHeader.MacroMap.header m s g.name).map CHeader.Header.lines)
  | funcPack => liftM ((CHeader.FuncPack.header m s g.name).map CHeader.Header.lines)
  | datasheet => pure (Markdown.Datasheet.lines m s)
  | dumpAnalysis =>
    match s.dump with
    | none => Logged.fail (.noDump g.name)
    | some d => Markdown.DumpAnalysis.lines m d

def generate (g : Generator) (m : RegisterMap) (s : Setting) : Logged GenerateError String := do
  return unlines (← g.lines m s)

end Generator

end RegAtlas
