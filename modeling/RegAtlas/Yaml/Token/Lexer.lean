import RegAtlas.Yaml.Property
import RegAtlas.Yaml.Scalar.Block
import RegAtlas.Yaml.Scalar.Plain
import RegAtlas.Yaml.Scalar.Quoted
import RegAtlas.Yaml.Token.Basic

namespace RegAtlas.Yaml

/-- Something that a colon on the same line would make a key. -/
structure PossibleKey where
  tokens : Nat
  line : Nat
  column : Nat
  required : Bool
deriving Repr

structure Lexer where
  rest : Source
  tokens : Array Token
  blocks : List Nat
  /-- One place for the block context and one for every open bracket, the innermost first. -/
  keys : List (Option PossibleKey)
  keyAllowed : Bool

namespace Lexer

def start (s : Source) : Lexer := ⟨s, #[], [], [none], true⟩

def inFlow (x : Lexer) : Bool := 1 < x.keys.length

def minColumn (x : Lexer) : Nat := x.blocks.head?.elim 0 (· + 1)

def column (x : Lexer) : Nat := x.rest.head?.elim 0 (·.column)

def line (x : Lexer) : Nat := x.rest.head?.elim 0 (·.line)

def take (x : Lexer) (count : Nat) (t : Token) : Lexer :=
  { x with rest := x.rest.drop count, tokens := x.tokens.push t }

def goTo (x : Lexer) (keyAllowed : Bool) (rest : Source) (t : Token) : Lexer :=
  { x with rest := rest, keyAllowed := keyAllowed, tokens := x.tokens.push t }

/-- Passes over gaps and comments. A tab may not stand where it would indent a key. A break ends a
comment, and outside brackets a key may follow it. -/
def skipFrom (flow : Bool) : Bool → Bool → Source → Source × Bool
  | _, keyAllowed, [] => ([], keyAllowed)
  | inComment, keyAllowed, p :: s =>
    if isBreak p.char then skipFrom flow false (keyAllowed || !flow) s
    else if inComment || p.char == '#' then skipFrom flow true keyAllowed s
    else if p.char == ' ' || ((flow || !keyAllowed) && p.char == '\t') then
      skipFrom flow false keyAllowed s
    else (p :: s, keyAllowed)

def skip (x : Lexer) : Lexer :=
  let (rest, keyAllowed) := skipFrom x.inFlow false x.keyAllowed x.rest
  { x with rest := rest, keyAllowed := keyAllowed }

/-- A key has its colon on the same line, and not too far away. -/
def isStale (x : Lexer) (k : PossibleKey) : Bool :=
  k.line < x.line || k.column + 1024 < x.column

def refreshKeys? (x : Lexer) : List (Option PossibleKey) → Option (List (Option PossibleKey))
  | [] => some []
  | none :: ks => (x.refreshKeys? ks).map (none :: ·)
  | some k :: ks =>
    if x.isStale k then if k.required then none else (x.refreshKeys? ks).map (none :: ·)
    else (x.refreshKeys? ks).map (some k :: ·)

def dropStale? (x : Lexer) : Option Lexer :=
  if x.rest.isEmpty then some x
  else (x.refreshKeys? x.keys).map fun ks => { x with keys := ks }

def dropKey? (x : Lexer) : Option Lexer :=
  match x.keys with
  | some k :: ks => if k.required then none else some { x with keys := none :: ks }
  | _ => some x

def saveKey? (x : Lexer) : Option Lexer :=
  if x.keyAllowed then
    x.dropKey?.map fun x =>
      let required := !x.inFlow && x.blocks.head? == some x.column
      { x with keys := some ⟨x.tokens.size, x.line, x.column, required⟩ :: x.keys.tail }
  else some x

def closeFrom (column : Nat) : List Nat → Array Token → List Nat × Array Token
  | [], ts => ([], ts)
  | b :: bs, ts => if column < b then closeFrom column bs (ts.push .blockEnd) else (b :: bs, ts)

def close (x : Lexer) : Lexer :=
  if x.inFlow then x
  else
    let (blocks, tokens) := closeFrom x.column x.blocks x.tokens
    { x with blocks := blocks, tokens := tokens }

def closeAll (x : Lexer) : Lexer :=
  if x.inFlow then x
  else { x with blocks := [], tokens := x.tokens ++ (x.blocks.map fun _ => Token.blockEnd).toArray }

def openBlock (x : Lexer) (column i : Nat) (t : Token) : Lexer :=
  if !x.inFlow && x.minColumn ≤ column then
    { x with blocks := column :: x.blocks, tokens := x.tokens.insertIdxIfInBounds i t }
  else x

def openHere (x : Lexer) (t : Token) : Lexer := x.openBlock x.column x.tokens.size t

def openBracket? (x : Lexer) (t : Token) : Option Lexer :=
  x.saveKey?.map fun x => { x.take 1 t with keys := none :: x.keys, keyAllowed := true }

def closeBracket? (x : Lexer) (t : Token) : Option Lexer :=
  x.dropKey?.map fun x =>
    { x.take 1 t with
      keys := if x.inFlow then x.keys.tail else x.keys, keyAllowed := false }

def flowEntry? (x : Lexer) : Option Lexer :=
  x.dropKey?.map fun x => { x.take 1 .flowEntry with keyAllowed := true }

def blockEntry? (x : Lexer) : Option Lexer :=
  if !x.inFlow && !x.keyAllowed then none
  else (x.openHere .blockListStart).dropKey?.map fun x =>
    { x.take 1 .blockEntry with keyAllowed := true }

def explicitKey? (x : Lexer) : Option Lexer :=
  if !x.inFlow && !x.keyAllowed then none
  else (x.openHere .blockMapStart).dropKey?.map fun x =>
    { x.take 1 .key with keyAllowed := !x.inFlow }

def value? (x : Lexer) : Option Lexer :=
  match x.keys with
  | some k :: ks =>
    let x := { x with keys := none :: ks, tokens := x.tokens.insertIdxIfInBounds k.tokens .key }
    let x := x.openBlock k.column k.tokens .blockMapStart
    some { x.take 1 .value with keyAllowed := false }
  | _ =>
    if !x.inFlow && !x.keyAllowed then none
    else
      let x := x.openHere .blockMapStart
      some { x.take 1 .value with keyAllowed := !x.inFlow }

def anchor? (x : Lexer) (token : String → Token) : Option Lexer := do
  let x ← x.saveKey?
  let (name, rest) ← anchorName? x.rest.tail
  return x.goTo false rest (token name)

def nodeTag? (x : Lexer) : Option Lexer := do
  let x ← x.saveKey?
  let (token, rest) ← tag? x.inFlow x.rest.tail
  return x.goTo false rest token

def blockScalar? (x : Lexer) (style : Style) : Option Lexer := do
  let x ← x.dropKey?
  let (text, rest) ← block? (style == .literal) x.minColumn x.rest.tail
  return x.goTo true rest (.scalar style (String.ofList text))

def quotedScalar? (x : Lexer) (quote : Char) (style : Style) : Option Lexer := do
  let x ← x.saveKey?
  let (text, rest) ← quoted? quote x.rest.tail
  return x.goTo false rest (.scalar style (String.ofList text))

def plainScalar? (x : Lexer) : Option Lexer := do
  let x ← x.saveKey?
  let t ← plain? x.inFlow x.minColumn x.rest
  return x.goTo t.endsLine t.rest (.scalar .plain (String.ofList t.text))

def documentMark? (x : Lexer) (t : Token) : Option Lexer :=
  x.closeAll.dropKey?.map fun x => { x.take 3 t with keyAllowed := false }

def nextDirective? (x : Lexer) : Option Lexer := do
  let x ← x.closeAll.dropKey?
  let (token, rest) ← directive? x.rest.tail
  return x.goTo false rest token

/-- Whether `c` cannot be the first character of a plain scalar, whatever follows. -/
def isIndicator (c : Char) : Bool := "-?:,[]\x7b\x7d#&*!|>'\"%@`".contains c

def startsPlain (x : Lexer) (c : Char) : Bool :=
  !isIndicator c || (c == '-' && !(x.rest.char? 1).any isBlank) ||
    (!x.inFlow && (c == '?' || c == ':') && !x.rest.endsWord 1)

def tokenFrom? (x : Lexer) (c : Char) : Option Lexer :=
  let alone := x.inFlow || x.rest.endsWord 1
  if x.column == 0 && c == '%' then x.nextDirective?
  else if x.rest.startsMark '-' then x.documentMark? .documentStart
  else if x.rest.startsMark '.' then x.documentMark? .documentEnd
  else if c == '[' then x.openBracket? .flowListStart
  else if c == '{' then x.openBracket? .flowMapStart
  else if c == ']' then x.closeBracket? .flowListEnd
  else if c == '}' then x.closeBracket? .flowMapEnd
  else if c == ',' then x.flowEntry?
  else if c == '-' && x.rest.endsWord 1 then x.blockEntry?
  else if c == '?' && alone then x.explicitKey?
  else if c == ':' && alone then x.value?
  else if c == '*' then x.anchor? .reference
  else if c == '&' then x.anchor? .anchor
  else if c == '!' then x.nodeTag?
  else if c == '|' && !x.inFlow then x.blockScalar? .literal
  else if c == '>' && !x.inFlow then x.blockScalar? .folded
  else if c == '\'' then x.quotedScalar? c .singleQuoted
  else if c == '"' then x.quotedScalar? c .doubleQuoted
  else if x.startsPlain c then x.plainScalar?
  else none

def run? : Nat → Lexer → Option (List Token)
  | 0, _ => none
  | fuel + 1, x => do
    let x ← x.skip.dropStale?
    let x := x.close
    match x.rest with
    | [] => (← x.closeAll.dropKey?).tokens.toList
    | p :: _ => run? fuel (← x.tokenFrom? p.char)

end Lexer

def Token.ofText? (text : String) : Option (List Token) :=
  (Source.ofText? text).bind fun s => (Lexer.start s).run? (s.length + 1)

end RegAtlas.Yaml
