import RegAtlas.Toml.Text

namespace RegAtlas.Toml

inductive Value where
  | bool (b : Bool)
  | text (s : String)
  | texts (ss : List String)
deriving Repr, DecidableEq

def skipComment? : List Char → Option (List Char)
  | '#' :: cs =>
    let comment := cs.takeWhile fun c => c != '\n' && c != '\r'
    if comment.all isPrintable then some (cs.drop comment.length) else none
  | cs => some cs

def skipGap? : Nat → List Char → Option (List Char)
  | 0, cs => some cs
  | fuel + 1, cs => do
    let cs ← skipComment? (skipBlanks cs)
    match newline? cs with
    | some rest => skipGap? fuel rest
    | none => return cs

def gap? (cs : List Char) : Option (List Char) := skipGap? (cs.length + 1) cs

def isKeyChar (c : Char) : Bool := c.isAlphanum || c == '_' || c == '-'

def key? (cs : List Char) : Option (List Char × List Char) :=
  match cs.span isKeyChar with
  | ([], _) => line? cs
  | (key, rest) => some (key, rest)

/-- The items of a list and what follows its bracket. A comma may follow the last item. -/
def items? : Nat → List Char → Option (List String × List Char)
  | 0, _ => none
  | fuel + 1, cs => do
    match ← gap? cs with
    | ']' :: rest => return ([], rest)
    | cs =>
      let (item, rest) ← text? cs
      let item := String.ofList item
      match ← gap? rest with
      | ']' :: rest => return ([item], rest)
      | ',' :: rest =>
        let (items, rest) ← items? fuel rest
        return (item :: items, rest)
      | _ => none

def value? (cs : List Char) : Option (Value × List Char) :=
  match cs with
  | 't' :: 'r' :: 'u' :: 'e' :: rest => some (.bool true, rest)
  | 'f' :: 'a' :: 'l' :: 's' :: 'e' :: rest => some (.bool false, rest)
  | '[' :: rest => (items? (rest.length + 1) rest).map fun (ss, r) => (.texts ss, r)
  | cs => (text? cs).map fun (t, r) => (.text (String.ofList t), r)

def endLine? (cs : List Char) : Option (List Char) := do
  match ← skipComment? (skipBlanks cs) with
  | [] => return []
  | cs => newline? cs

def entries? : Nat → List Char → Option (List (String × Value))
  | 0, _ => none
  | fuel + 1, cs => do
    match ← gap? cs with
    | [] => return []
    | cs =>
      let (key, rest) ← key? cs
      match skipBlanks rest with
      | '=' :: rest =>
        let (value, rest) ← value? (skipBlanks rest)
        return (String.ofList key, value) :: (← entries? fuel (← endLine? rest))
      | _ => none

def read? (text : String) : Option (List (String × Value)) :=
  match text.toList with
  | '\uFEFF' :: cs | cs => entries? (cs.length + 1) cs

end RegAtlas.Toml
