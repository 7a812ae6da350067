namespace RegAtlas.Yaml

structure Placed where
  char : Char
  line : Nat
  column : Nat
deriving Repr, DecidableEq

abbrev Source := List Placed

def isBreak (c : Char) : Bool := c == '\n' || c == '\u2028' || c == '\u2029'

def isBlank (c : Char) : Bool := c == ' ' || c == '\t'

def isGap (c : Char) : Bool := isBlank c || isBreak c

def isAllowed (c : Char) : Bool :=
  let n := c.toNat
  n == 0x9 || n == 0xA || n == 0xD || (0x20 ≤ n && n ≤ 0x7E) || n == 0x85 ||
    (0xA0 ≤ n && n ≤ 0xD7FF) || (0xE000 ≤ n && n ≤ 0xFFFD) || (0x10000 ≤ n && n ≤ 0x10FFFF)

def normalBreaks : List Char → List Char
  | [] => []
  | '\r' :: '\n' :: cs => '\n' :: normalBreaks cs
  | '\r' :: cs | '\u0085' :: cs => '\n' :: normalBreaks cs
  | c :: cs => c :: normalBreaks cs

namespace Source

def place : List Char → Nat → Nat → Source
  | [], _, _ => []
  | c :: cs, line, column =>
    ⟨c, line, column⟩ ::
      if isBreak c then place cs (line + 1) 0 else place cs line (column + 1)

/-- The characters of a document. A byte order mark at its start takes up a column of its own and
is passed over. -/
def ofText? (text : String) : Option Source :=
  if text.toList.all isAllowed then
    match place (normalBreaks text.toList) 0 0 with
    | ⟨'\uFEFF', _, _⟩ :: s => some s
    | s => some s
  else none

def chars (s : Source) : List Char := s.map (·.char)

def char? (s : Source) (offset : Nat) : Option Char := s[offset]?.map (·.char)

def endsWord (s : Source) (offset : Nat) : Bool := (s.char? offset).all isGap

def startsWith (s : Source) (c : Char) : Bool := s.char? 0 == some c

def dropBlanks (s : Source) : Source := s.dropWhile fun p => isBlank p.char

def dropLine (s : Source) : Source := s.dropWhile fun p => !isBreak p.char

def endLine? (s : Source) : Option Source :=
  let s := s.dropBlanks
  let s := if s.startsWith '#' then s.dropLine else s
  match s with
  | [] => some []
  | p :: s => if isBreak p.char then some s else none

def startsMark (s : Source) (c : Char) : Bool :=
  match s with
  | p :: q :: r :: rest =>
    p.column == 0 && p.char == c && q.char == c && r.char == c && Source.endsWord rest 0
  | _ => false

def atDocumentMark (s : Source) : Bool := s.startsMark '-' || s.startsMark '.'

end Source

end RegAtlas.Yaml
