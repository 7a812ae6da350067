import RegAtlas.Numeral
import RegAtlas.Yaml.Scalar.Gap

namespace RegAtlas.Yaml

def escapedCode? (count : Nat) (s : Source) : Option (Char × Source) :=
  let digits := Source.chars (s.take count)
  if digits.length < count then none
  else
    (Numeral.read? 16 digits).bind fun n =>
      if n.isValidChar then some (Char.ofNat n, s.drop count) else none

def escapedChar? : Char → Option Char
  | '0' => some '\x00'
  | 'a' => some '\x07'
  | 'b' => some '\x08'
  | 't' | '\t' => some '\t'
  | 'n' => some '\n'
  | 'v' => some '\x0b'
  | 'f' => some '\x0c'
  | 'r' => some '\r'
  | 'e' => some '\x1b'
  | ' ' => some ' '
  | '"' => some '"'
  | '/' => some '/'
  | '\\' => some '\\'
  | 'N' => some '\u0085'
  | '_' => some '\u00a0'
  | 'L' => some '\u2028'
  | 'P' => some '\u2029'
  | _ => none

def escape? : Source → Option (Char × Source)
  | [] => none
  | p :: s =>
    match p.char with
    | 'x' => escapedCode? 2 s
    | 'u' => escapedCode? 4 s
    | 'U' => escapedCode? 8 s
    | c => (escapedChar? c).map (·, s)

def singleQuotedWord : Source → List Char × Source
  | [] => ([], [])
  | p :: s =>
    if isGap p.char then ([], p :: s)
    else if p.char == '\'' then
      match s with
      | q :: s' =>
        if q.char == '\'' then
          let (word, rest) := singleQuotedWord s'
          ('\'' :: word, rest)
        else ([], p :: s)
      | [] => ([], p :: s)
    else
      let (word, rest) := singleQuotedWord s
      (p.char :: word, rest)

structure QuotedWord where
  text : List Char
  rest : Source
  /-- Whether the word ends with an escaped break, which is not part of the rest. -/
  joined : Bool

def doubleQuotedWord? : Nat → Source → Option QuotedWord
  | 0, _ => none
  | _, [] => some ⟨[], [], false⟩
  | fuel + 1, p :: s =>
    if isGap p.char || p.char == '"' then some ⟨[], p :: s, false⟩
    else if p.char == '\\' then
      if (Source.char? s 0).any isBreak then some ⟨[], s.tail, true⟩
      else do
        let (c, s) ← escape? s
        let w ← doubleQuotedWord? fuel s
        return { w with text := c :: w.text }
    else (doubleQuotedWord? fuel s).map fun w => { w with text := p.char :: w.text }

def quotedWord? (quote : Char) (s : Source) : Option QuotedWord :=
  if quote == '"' then doubleQuotedWord? (s.length + 1) s
  else
    let (text, rest) := singleQuotedWord s
    some ⟨text, rest, false⟩

def quotedFrom? (quote : Char) : Nat → Source → Option (List Char × Source)
  | 0, _ => none
  | fuel + 1, s =>
    if s.isEmpty || s.atDocumentMark then none
    else do
      let w ← quotedWord? quote s
      if w.rest.startsWith quote then return (w.text, w.rest.tail)
      let (gap, s) := splitGap w.rest
      let between := if w.joined then Gap.breaks gap else Gap.text gap
      let (text, rest) ← quotedFrom? quote fuel s
      return (w.text ++ between ++ text, rest)

def quoted? (quote : Char) (s : Source) : Option (List Char × Source) :=
  quotedFrom? quote (s.length + 1) s

end RegAtlas.Yaml
