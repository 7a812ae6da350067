import RegAtlas.Document.Node
import RegAtlas.Hjson.Source

namespace RegAtlas.Hjson

def digits? (cs : List Char) : Option (List Char × List Char) :=
  match cs.span Char.isDigit with
  | ([], _) => none
  | (ds, rest) => some (ds, rest)

def exponentSign : List Char → List Char
  | '+' :: cs | '-' :: cs => cs
  | cs => cs

def skipExponent? (cs : List Char) : Option (List Char) :=
  match cs with
  | 'e' :: rest | 'E' :: rest => (digits? (exponentSign rest)).map (·.2)
  | cs => some cs

def skipFraction? (cs : List Char) : Option (List Char) :=
  match cs with
  | '.' :: rest => (digits? rest).bind fun d => skipExponent? d.2
  | cs => skipExponent? cs

def integer? (negative : Bool) (digits : List Char) : Option Value :=
  (Numeral.read? 10 digits).bind fun n =>
    if !negative then if n < 1 <<< 64 then some (.nat n) else none
    else if n = 0 then some (.nat 0)
    else if n ≤ 1 <<< 63 then some (.negative (-n))
    else none

def numberAt? (cs : List Char) : Option (Value × List Char) := do
  let unsigned := match cs with
    | '-' :: cs => cs
    | cs => cs
  let (whole, rest) ← digits? unsigned
  if whole.head? == some '0' && 1 < whole.length then none
  let rest' ← skipFraction? rest
  if rest'.length = rest.length then
    return (← integer? (cs.head? == some '-') whole, rest)
  else return (.real (String.ofList (cs.take (cs.length - rest'.length))), rest')

def number? (s : Source) : Option Value := do
  let (v, rest) ← numberAt? s.chars
  let left ← Source.skip? (s.drop (s.length - rest.length))
  if left.isEmpty then return v else none

end RegAtlas.Hjson
