import RegAtlas.Yaml.Scalar.Gap

namespace RegAtlas.Yaml

def isFlowMark (c : Char) : Bool := c == ',' || c == '[' || c == ']' || c == '{' || c == '}'

/-- A word of a plain scalar and the rest. Inside brackets a colon may not be glued to a mark. -/
def plainWord? (flow : Bool) : Source → Option (List Char × Source)
  | [] => some ([], [])
  | p :: s =>
    if isGap p.char then some ([], p :: s)
    else if p.char == ':' then
      if flow && (Source.char? s 0).any (fun c => isFlowMark c || c == '?') then none
      else if Source.endsWord s 0 then some ([], p :: s)
      else (plainWord? flow s).map fun (word, rest) => (p.char :: word, rest)
    else if flow && isFlowMark p.char then some ([], p :: s)
    else (plainWord? flow s).map fun (word, rest) => (p.char :: word, rest)

structure PlainScalar where
  text : List Char
  rest : Source
  endsLine : Bool

def plainFrom? (flow : Bool) (indent : Nat) : Nat → Source → Source → Option PlainScalar
  | 0, _, _ => none
  | fuel + 1, gap, s =>
    let ended := some ⟨[], s, Gap.hasBreak gap⟩
    if s.atDocumentMark || s.startsWith '#' then ended
    else
      match plainWord? flow s with
      | none => none
      | some ([], _) => ended
      | some (word, s) =>
        let (next, s') := splitGap s
        let here := Gap.text gap ++ word
        if next.isEmpty then some ⟨here, s, false⟩
        else if Gap.hasEarlyTab next indent then none
        else if !flow && s'.head?.any (·.column < indent) then some ⟨here, s', Gap.hasBreak next⟩
        else (plainFrom? flow indent fuel next s').map fun t => { t with text := here ++ t.text }

def plain? (flow : Bool) (indent : Nat) (s : Source) : Option PlainScalar :=
  plainFrom? flow indent (s.length + 1) [] s

end RegAtlas.Yaml
