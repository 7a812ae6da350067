import RegAtlas.Document.Outline
import RegAtlas.Hjson.Number
import RegAtlas.Hjson.Text
import RegAtlas.Text.Basic

namespace RegAtlas.Hjson

def isMark (c : Char) : Bool :=
  c == '\x7b' || c == '\x7d' || c == '[' || c == ']' || c == ',' || c == ':'

/-- An unquoted key up to its colon, which is left. Blanks may follow the key but not be in it. -/
def bareKey? : Bool → Source → Option (List Char × Source)
  | _, [] => none
  | ended, p :: s =>
    if p.char == ':' then some ([], p :: s)
    else if p.char == '\x00' then none
    else if p.char ≤ ' ' then bareKey? true s
    else if isMark p.char || ended then none
    else (bareKey? false s).map fun (key, rest) => (p.char :: key, rest)

def key? (s : Source) : Option (List Char × Source) :=
  match s with
  | [] => none
  | p :: rest =>
    if p.char == '"' then quoted? rest
    else (bareKey? false s).filter fun k => !k.1.isEmpty

def endsLine (c : Char) : Bool := c == '\r' || c == '\n' || c == '\x00'

def endsScalar (c : Char) (next : Option Char) : Bool :=
  endsLine c || c == '#' || c == ',' || c == '\x7d' || c == ']' ||
    (c == '/' && (next == some '/' || next == some '*'))

def typed? (s : Source) : Option Value :=
  match String.ofList (Text.trim s.chars) with
  | "null" => some .null
  | "true" => some (.bool true)
  | "false" => some (.bool false)
  | _ => number? s

def bareFrom (front : Source) : Source → Value × Source
  | [] =>
    let front := front.reverse
    ((typed? front).getD (.text (String.ofList (Text.trim (Source.chars front)))), [])
  | p :: s =>
    if endsScalar p.char (Source.char? s) then
      match typed? front.reverse with
      | some v => (v, p :: s)
      | none =>
        if endsLine p.char then
          (.text (String.ofList (Text.trim (Source.chars front.reverse))), s)
        else bareFrom (p :: front) s
    else bareFrom (p :: front) s

def scalar? (p : Letter) (s : Source) : Option (Value × Source) :=
  if p.char == '"' then (quoted? s).map fun (text, rest) => (.text (String.ofList text), rest)
  else if startsQuotes (p :: s) then
    (multiline? p.column (s.drop 2)).map fun (text, rest) => (.text (String.ofList text), rest)
  else if isMark p.char || p.char == '\x00' then none
  else some (bareFrom [] (p :: s))

def skipComma? (first : Bool) (s : Source) : Option Source := do
  let s ← s.skip?
  if !first && s.char? == some ',' then Source.skip? s.tail else return s

mutual

def value? (o : Outline) : Nat → Source → Option (Node × Source)
  | 0, _ => none
  | fuel + 1, s => do
    match ← s.skip? with
    | [] => none
    | p :: s =>
      if p.char == '[' then
        let (xs, s) ← items? o 0 fuel s
        return (.list xs, s)
      else if p.char == '\x7b' then
        let (es, s) ← entries? o false true fuel s
        return (.map es, s)
      else
        let (v, s) ← scalar? p s
        return (.leaf v none, s)

def slot? (slot : Outline.Slot) : Nat → Source → Option (Node × Source)
  | 0, _ => none
  | fuel + 1, s => do
    let s ← s.skip?
    if slot.optional && s.char? == some 'n' then
      if Source.chars (s.take 4) == ['n', 'u', 'l', 'l'] then
        return (.leaf .null none, s.drop 4)
      else none
    else value? slot.outline fuel s

/-- The items of a list from the one at `i` on. A list for a record ends right behind its last
item. -/
def items? (o : Outline) (i : Nat) : Nat → Source → Option (List Node × Source)
  | 0, _ => none
  | fuel + 1, s => do
    let s ← skipComma? (i == 0 || o.size? == some i) s
    match s with
    | [] => none
    | p :: rest =>
      if p.char == ']' then return ([], rest)
      else
        let (x, s) ← slot? (o.atItem i) fuel s
        let (xs, s) ← items? o (i + 1) fuel s
        return (x :: xs, s)

def entries? (o : Outline) (root first : Bool) : Nat → Source → Option (List (Node × Node) × Source)
  | 0, _ => none
  | fuel + 1, s => do
    let s ← skipComma? first s
    match s with
    | [] => if root then some ([], []) else none
    | p :: rest =>
      if p.char == '\x7d' then if root then none else return ([], rest)
      else
        let (key, s) ← key? s
        let s ← s.skip?
        if s.char? != some ':' then none
        let name := String.ofList key
        let (v, s) ← slot? (o.atKey name) fuel s.tail
        let (es, s) ← entries? o root false fuel s
        return ((.text name, v) :: es, s)

end

def rootMap? (o : Outline) (s : Source) : Option Node := do
  let s ← s.skip?
  if s.isEmpty then none
  let (es, _) ← entries? o true true (4 * s.length + 4) s
  return .map es

def wholeValue? (o : Outline) (s : Source) : Option Node := do
  let (n, rest) ← value? o (4 * s.length + 4) s
  if (← rest.skip?).isEmpty then return n else none

/-- The text as the node that `o` tells something of. Why it cannot be read is not told. -/
def read? (o : Outline) (text : String) : Option Node :=
  let s := Source.ofText text
  rootMap? o s <|> wholeValue? o s

end RegAtlas.Hjson
