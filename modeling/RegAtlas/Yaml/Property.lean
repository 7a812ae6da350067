import RegAtlas.Numeral
import RegAtlas.Yaml.Source
import RegAtlas.Yaml.Token.Basic

namespace RegAtlas.Yaml

def isNameChar (c : Char) : Bool := c.isAlphanum || c == '_' || c == '-'

def takeChars (p : Char → Bool) (s : Source) : List Char × Source :=
  let (part, rest) := s.span fun x => p x.char
  (Source.chars part, rest)

def anchorName? (s : Source) : Option (String × Source) :=
  let (name, rest) := takeChars isNameChar s
  if name.isEmpty then none
  else if Source.endsWord rest 0 ||
      (Source.char? rest 0).any (fun c => "?:,]\x7d%@`".contains c) then
    some (String.ofList name, rest)
  else none

def isUriChar (verbatim : Bool) (c : Char) : Bool :=
  isNameChar c || ";/?:@&=+$.!~*'()%".contains c || (verbatim && ",[]".contains c)

def utf8Length? (b : Nat) : Option Nat :=
  if b < 0x80 then some 1
  else if b / 32 == 6 then some 2
  else if b / 16 == 14 then some 3
  else if b / 8 == 30 then some 4
  else none

def uriByte? : List Char → Option (Nat × List Char)
  | '%' :: a :: b :: cs => (Numeral.read? 16 [a, b]).map (·, cs)
  | _ => none

def uriText? : Nat → List Char → Option (List Char)
  | 0, _ => none
  | _, [] => some []
  | fuel + 1, '%' :: cs => do
    let (first, rest) ← uriByte? ('%' :: cs)
    let count ← utf8Length? first
    let (bytes, rest) ← (List.range (count - 1)).foldlM (fun (bytes, rest) _ => do
      let (b, rest) ← uriByte? rest
      if b / 64 == 2 then return (bytes.push b.toUInt8, rest) else none)
      (ByteArray.empty.push first.toUInt8, rest)
    let text ← String.fromUTF8? bytes
    return text.toList ++ (← uriText? fuel rest)
  | fuel + 1, c :: cs => (uriText? fuel cs).map (c :: ·)

def uri? (verbatim : Bool) (s : Source) : Option (List Char × Source) := do
  let (raw, rest) := takeChars (isUriChar verbatim) s
  return (← uriText? (raw.length + 1) raw, rest)

/-- A tag without its final word boundary. A handle is empty for a tag in angle brackets and for
the tag that consists of its mark alone. -/
def tagParts? (s : Source) : Option (String × String × Source) := do
  if s.startsWith '<' then
    let (text, rest) ← uri? true s.tail
    if text.isEmpty || !rest.startsWith '>' then none
    else return ("", String.ofList text, rest.tail)
  else
    let (name, rest) := takeChars isNameChar s
    if rest.startsWith '!' then
      let (text, rest) ← uri? false rest.tail
      if text.isEmpty then none
      else return ("!" ++ String.ofList name ++ "!", String.ofList text, rest)
    else
      let (text, rest) ← uri? false rest
      let suffix := name ++ text
      if suffix.isEmpty then return ("", "!", rest)
      else return ("!", String.ofList suffix, rest)

def tag? (flow : Bool) (s : Source) : Option (Token × Source) := do
  let (handle, suffix, rest) ← tagParts? s
  if Source.endsWord rest 0 || (flow && rest.startsWith ',') then return (.tag handle suffix, rest)
  else none

def versionNumber? (s : Source) : Option (Nat × Source) :=
  let (digits, rest) := takeChars Char.isDigit s
  if digits.length > 9 then none else (Numeral.read? 10 digits).map (·, rest)

def directiveHandle? (s : Source) : Option (String × Source) :=
  if s.startsWith '!' then
    let (name, rest) := takeChars isNameChar s.tail
    if rest.startsWith '!' then some ("!" ++ String.ofList name ++ "!", rest.tail)
    else if name.isEmpty then some ("!", rest)
    else none
  else none

def directive? (s : Source) : Option (Token × Source) := do
  let (name, rest) := takeChars isNameChar s
  if !rest.endsWord 0 then none
  let rest := rest.dropBlanks
  match String.ofList name with
  | "YAML" =>
    let (major, rest) ← versionNumber? rest
    if !rest.startsWith '.' then none
    let (minor, rest) ← versionNumber? rest.tail
    return (.version major minor, ← rest.endLine?)
  | "TAG" =>
    let (handle, rest) ← directiveHandle? rest
    if !(rest.char? 0).any isBlank then none
    let (text, rest) ← uri? true rest.dropBlanks
    if text.isEmpty || !rest.endsWord 0 then none
    return (.tagDirective handle (String.ofList text), ← rest.endLine?)
  | _ => none

end RegAtlas.Yaml
