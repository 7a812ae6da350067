import RegAtlas.Hjson.Reader
import RegAtlas.Yaml.Token.Lexer
import RegAtlas.Yaml.Tree.Grammar
import RegAtlas.Yaml.Tree.Resolve

namespace RegAtlas

def Yaml.read? (text : String) : Option Node :=
  (Token.ofText? text).bind fun tokens => (Tree.ofTokens? tokens).bind Tree.node?

inductive Format where
  | yaml
  | hjson
deriving Repr, DecidableEq

namespace Format

def name : Format → String
  | yaml => "yaml"
  | hjson => "hjson"

def label : Format → String
  | yaml => "<yaml string>"
  | hjson => "<hjson string>"

def read? : Format → Outline → String → Option Node
  | yaml, _, text => Yaml.read? text
  | hjson, o, text => Hjson.read? o text

end Format

end RegAtlas
