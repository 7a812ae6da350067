import RegAtlas.Generator.Setting

namespace RegAtlas

namespace CHeader

def isNameChar (c : Char) : Bool := c.isAlphanum || c == '_'

def sanitizeChar (c : Char) : Char := if isNameChar c then c else '_'

def sanitize (name : String) : String := name.map sanitizeChar

def macroName (name : String) : String := (sanitize name).map Char.toUpper

def codeName (name : String) : String := (sanitize name).map Char.toLower

def guardName (m : RegisterMap) (s : Setting) : String :=
  match s.outputName with
  | some file => "REGGEN_" ++ macroName file
  | none => "REGGEN_" ++ macroName m.name ++ "_H"

end CHeader

namespace Config

def leadFor (c : Config) (m : RegisterMap) : String := c.lead.getD m.name

def macroLead (c : Config) (m : RegisterMap) : String := CHeader.macroName (c.leadFor m)

def codeLead (c : Config) (m : RegisterMap) : String := CHeader.codeName (c.leadFor m)

end Config

end RegAtlas
