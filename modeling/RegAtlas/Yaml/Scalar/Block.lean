import RegAtlas.Numeral
import RegAtlas.Yaml.Source

namespace RegAtlas.Yaml

/-- What is kept of the breaks at the end: the first one if nothing else is said. -/
inductive Chomp where
  | clip
  | strip
  | keep
deriving Repr, DecidableEq

def chomp? : Char → Option Chomp
  | '-' => some .strip
  | '+' => some .keep
  | _ => none

def indentDigit? (s : Source) : Option (Option Nat × Source) :=
  match s with
  | [] => some (none, s)
  | p :: rest =>
    match Numeral.digit? 10 p.char with
    | some 0 => none
    | some n => some (some n, rest)
    | none => some (none, s)

structure BlockHeader where
  chomp : Chomp
  indent : Option Nat
  rest : Source

/-- The end of the line on which the scalar starts. The chomping mark and the digit may come in
either order. -/
def blockHeader? (s : Source) : Option BlockHeader := do
  match (s.char? 0).bind chomp? with
  | some chomp =>
    let (indent, s) ← indentDigit? s.tail
    return ⟨chomp, indent, ← s.endLine?⟩
  | none =>
    let (indent, s) ← indentDigit? s
    match indent, (s.char? 0).bind chomp? with
    | some _, some chomp => return ⟨chomp, indent, ← Source.endLine? s.tail⟩
    | _, _ => return ⟨.clip, indent, ← s.endLine?⟩

/-- Empty lines, whose indentation ends before `limit` if there is one. -/
structure BlockGap where
  breaks : List Char
  /-- The largest column at which one of the lines, or the line after them, has no more spaces. -/
  widest : Nat
  rest : Source

def blockGap? (limit : Option Nat) : Nat → Source → Option BlockGap
  | 0, _ => none
  | fuel + 1, s =>
    let indenting (p : Placed) : Bool := limit.all (p.column < ·)
    match s.dropWhile fun p => p.char == ' ' && indenting p with
    | [] => some ⟨[], 0, []⟩
    | p :: s =>
      if p.char == '\t' && indenting p then none
      else if isBreak p.char then
        (blockGap? limit fuel s).map fun g =>
          { g with breaks := p.char :: g.breaks, widest := max p.column g.widest }
      else some ⟨[], p.column, p :: s⟩

def blockJoint (literal : Bool) (lead : List Char) (trailing : List Char) (blank : Bool) :
    List Char :=
  if !literal && lead == ['\n'] && !blank then
    if trailing.isEmpty then [' '] else trailing
  else lead ++ trailing

/-- The lines that start at column `indent`. The break before them is `lead`, the empty lines
after it are `trailing`, and `blank` says whether the line before starts with a blank. -/
def blockLines? (literal : Bool) (chomp : Chomp) (indent : Nat) :
    Nat → List Char → List Char → Bool → Source → Option (List Char × Source)
  | 0, _, _, _, _ => none
  | fuel + 1, lead, trailing, blank, s =>
    if s.head?.any (·.column == indent) then do
      let startsBlank := (s.char? 0).any isBlank
      let joint := blockJoint literal lead trailing (blank || startsBlank)
      let (line, s) := s.span fun p => !isBreak p.char
      let gap ← blockGap? (some indent) (s.length + 1) s.tail
      let lead := Source.chars (s.take 1)
      let (text, rest) ← blockLines? literal chomp indent fuel lead gap.breaks startsBlank gap.rest
      return (joint ++ Source.chars line ++ text, rest)
    else
      match chomp with
      | .strip => some ([], s)
      | .clip => some (lead, s)
      | .keep => some (lead ++ trailing, s)

/-- A scalar whose bar or angle bracket has been read, in a block whose content must be indented by
at least `indent` columns. -/
def block? (literal : Bool) (indent : Nat) (s : Source) : Option (List Char × Source) := do
  let header ← blockHeader? s
  let fuel := s.length + 1
  let given := header.indent.map fun n => if indent = 0 then n else indent - 1 + n
  let gap ← blockGap? given fuel header.rest
  let column := given.getD (max 1 (max indent gap.widest))
  blockLines? literal header.chomp column fuel [] gap.breaks false gap.rest

end RegAtlas.Yaml
