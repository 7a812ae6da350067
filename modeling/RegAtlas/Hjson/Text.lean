import RegAtlas.Hjson.Source

namespace RegAtlas.Hjson

def escaped? : Char → Option Char
  | '"' => some '"'
  | '\\' => some '\\'
  | '/' => some '/'
  | 'b' => some '\x08'
  | 'f' => some '\x0c'
  | 'n' => some '\n'
  | 'r' => some '\r'
  | 't' => some '\t'
  | _ => none

def unit? (s : Source) : Option (Nat × Source) :=
  let ds := Source.chars (s.take 4)
  if ds.length < 4 then none else (Numeral.read? 16 ds).map (·, s.drop 4)

/-- The character that one unit stands for, or two of which the second is escaped as well. -/
def codePoint? (s : Source) : Option (Char × Source) := do
  let (high, s) ← unit? s
  if 0xD800 ≤ high && high < 0xDC00 then
    match s with
    | p :: q :: s =>
      if p.char == '\\' && q.char == 'u' then
        let (low, s) ← unit? s
        if 0xDC00 ≤ low && low < 0xE000 then
          return (Char.ofNat (0x10000 + (high - 0xD800) * 0x400 + (low - 0xDC00)), s)
        else none
      else none
    | _ => none
  else if high.isValidChar then return (Char.ofNat high, s)
  else none

def escape? : Source → Option (Char × Source)
  | [] => none
  | p :: s => if p.char == 'u' then codePoint? s else (escaped? p.char).map (·, s)

def quotedFrom? : Nat → Source → Option (List Char × Source)
  | 0, _ | _, [] => none
  | fuel + 1, p :: s =>
    if p.char == '"' then some ([], s)
    else if p.char == '\\' then do
      let (c, s) ← escape? s
      let (text, rest) ← quotedFrom? fuel s
      return (c :: text, rest)
    else (quotedFrom? fuel s).map fun (text, rest) => (p.char :: text, rest)

def quoted? (s : Source) : Option (List Char × Source) := quotedFrom? (s.length + 1) s

def isIndent (c : Char) : Bool := c == ' ' || c == '\t' || c == '\r'

def dropIndent : Option Nat → Source → Source
  | some 0, s => s
  | _, [] => []
  | limit, p :: s => if isIndent p.char then dropIndent (limit.map (· - 1)) s else p :: s

def startsQuotes : Source → Bool
  | p :: q :: r :: _ => p.char == '\'' && q.char == '\'' && r.char == '\''
  | _ => false

def linesFrom? (indent : Option Nat) : Nat → Source → Option (List Char × Source)
  | 0, _ | _, [] => none
  | fuel + 1, p :: s =>
    if startsQuotes (p :: s) then some ([], s.drop 2)
    else if p.char == '\n' then
      (linesFrom? indent fuel (dropIndent indent s)).map fun (text, rest) => ('\n' :: text, rest)
    else
      (linesFrom? indent fuel s).map fun (text, rest) =>
        (if p.char == '\r' then text else p.char :: text, rest)

def dropFinalBreak (cs : List Char) : List Char :=
  if cs.getLast? == some '\n' then cs.dropLast else cs

/-- A text whose opening quotes have been read, which stand at `column`. The break behind them and
the one before the closing quotes do not belong to it. Quotes at the very start of a line take all
indentation away. -/
def multiline? (column : Nat) (s : Source) : Option (List Char × Source) :=
  let indent := if column = 0 then none else some column
  let s := dropIndent none s
  let s := if Source.char? s == some '\n' then dropIndent indent s.tail else s
  (linesFrom? indent (s.length + 1) s).map fun (text, rest) => (dropFinalBreak text, rest)

end RegAtlas.Hjson
