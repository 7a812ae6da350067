import RegAtlas.Numeral

namespace RegAtlas.Hjson

structure Letter where
  char : Char
  column : Nat
deriving Repr, DecidableEq

abbrev Source := List Letter

namespace Source

def place : List Char → Nat → Source
  | [], _ => []
  | c :: cs, column => ⟨c, column⟩ :: place cs (if c == '\n' then 0 else column + c.utf8Size)

def ofText (text : String) : Source := place text.toList 0

def chars (s : Source) : List Char := s.map (·.char)

def char? (s : Source) : Option Char := s.head?.map (·.char)

def afterComment? : Source → Option Source
  | p :: q :: s => if p.char == '*' && q.char == '/' then some s else afterComment? (q :: s)
  | _ => none

def isSpace (c : Char) : Bool := c == ' ' || c == '\n' || c == '\t' || c == '\r'

def skipFrom? : Nat → Source → Option Source
  | 0, s => some s
  | _, [] => some []
  | fuel + 1, p :: s =>
    if isSpace p.char then skipFrom? fuel s
    else if p.char == '#' then skipFrom? fuel (s.dropWhile (·.char != '\n'))
    else if p.char == '/' then
      match char? s with
      | some '/' => skipFrom? fuel (s.dropWhile (·.char != '\n'))
      | some '*' => (afterComment? s.tail).bind (skipFrom? fuel)
      | some _ => skipFrom? fuel s
      | none => none
    else some (p :: s)

def skip? (s : Source) : Option Source := skipFrom? (s.length + 1) s

end Source

end RegAtlas.Hjson
