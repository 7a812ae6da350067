import RegAtlas.Yaml.Source

namespace RegAtlas.Yaml

def foldBreaks : List Char → List Char
  | ['\n'] => [' ']
  | '\n' :: bs => bs
  | bs => bs

namespace Gap

def hasBreak (gap : Source) : Bool := gap.any fun p => isBreak p.char

def breaks (gap : Source) : List Char := gap.chars.filter isBreak

def text (gap : Source) : List Char := if hasBreak gap then foldBreaks (breaks gap) else gap.chars

/-- Whether a tab stands where a line of the gap would have to be indented by spaces. -/
def hasEarlyTab (gap : Source) (indent : Nat) : Bool :=
  gap.any fun p => p.char == '\t' && p.column < indent &&
    gap.any fun q => isBreak q.char && q.line < p.line

end Gap

def splitGap (s : Source) : Source × Source := s.span fun p => isGap p.char

end RegAtlas.Yaml
