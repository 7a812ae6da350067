import RegAtlas.Yaml.Tree.Basic

namespace RegAtlas.Yaml

structure Ahead where
  tokens : List Token
  slots : List (String × Nat)

abbrev Parse := StateT Ahead Option

namespace Parse

def peek : Parse (Option Token) := return (← get).tokens.head?

def skip : Parse Unit := modify fun a => { a with tokens := a.tokens.tail }

def sees (t : Token) : Parse Bool := return (← peek) == some t

def skips (t : Token) : Parse Bool := do
  let found ← sees t
  if found then skip
  return found

def slotOf (anchor : String) : Parse Nat := do
  let a ← get
  let slot := a.slots.length
  set { a with slots := (anchor, slot) :: a.slots.filter (·.1 != anchor) }
  return slot

end Parse

open Parse

abbrev Handles := List (String × String)

def Handles.standard : Handles := [("!", "!"), ("!!", "tag:yaml.org,2002:")]

def Handles.expand? (hs : Handles) (handle suffix : String) : Option String :=
  if handle.isEmpty then some suffix
  else (hs.find? (·.1 == handle)).map fun h => h.2 ++ suffix

def parseAnchor : Parse (Option String) := do
  match ← peek with
  | some (.anchor name) =>
    skip
    return some name
  | _ => return none

def parseTag (hs : Handles) : Parse (Option String) := do
  match ← peek with
  | some (.tag handle suffix) =>
    skip
    some <$> hs.expand? handle suffix
  | _ => return none

def parseProperties (hs : Handles) : Parse (Option String × Option String) := do
  match ← parseAnchor with
  | some anchor => return (some anchor, ← parseTag hs)
  | none =>
    let tag ← parseTag hs
    return (← parseAnchor, tag)

inductive Position where
  | block
  /-- In a block map, where a list need not be indented further. -/
  | blockMap
  | flow
deriving DecidableEq

def endsBlockItem : Option Token → Bool
  | some .blockEntry | some .blockEnd => true
  | _ => false

def endsLooseItem : Option Token → Bool
  | some .blockEntry | some .key | some .value | some .blockEnd => true
  | _ => false

def endsBlockPart : Option Token → Bool
  | some .key | some .value | some .blockEnd => true
  | _ => false

def endsFlowItem : Option Token → Bool
  | some .flowEntry | some .flowListEnd => true
  | _ => false

def endsFlowPart : Option Token → Bool
  | some .flowEntry | some .flowMapEnd => true
  | _ => false

/-- The tag that is a mark alone says nothing of a scalar. -/
def scalarTree (tag : Option String) (style : Style) (text : String) : Tree :=
  .scalar (tag.filter (· != "!")) style text

mutual

def parseNode (hs : Handles) (place : Position) : Nat → Parse Tree
  | 0 => failure
  | fuel + 1 => do
    match ← peek with
    | some (.reference name) =>
      skip
      let slot ← (← get).slots.find? (·.1 == name)
      return .reference slot.2
    | _ =>
      let (anchor, tag) ← parseProperties hs
      match anchor with
      | none => parseContent hs place false tag fuel
      | some name => return .anchored (← slotOf name) (← parseContent hs place true tag fuel)

/-- A node behind its properties. It may be left out only if it has some. -/
def parseContent (hs : Handles) (place : Position) (anchored : Bool) (tag : Option String) :
    Nat → Parse Tree
  | 0 => failure
  | fuel + 1 => do
    match ← peek, place with
    | some (.scalar style text), _ =>
      skip
      return scalarTree tag style text
    | some .flowListStart, _ =>
      skip
      return .list tag (← parseFlowItems hs true fuel)
    | some .flowMapStart, _ =>
      skip
      return .map tag (← parseFlowEntries hs true fuel)
    | some .blockEntry, .blockMap => return .list tag (← parseLooseItems hs fuel)
    | some .blockListStart, .block | some .blockListStart, .blockMap =>
      skip
      return .list tag (← parseBlockItems hs fuel)
    | some .blockMapStart, .block | some .blockMapStart, .blockMap =>
      skip
      return .map tag (← parseBlockEntries hs fuel)
    | _, _ => if anchored || tag.isSome then return scalarTree tag .plain "" else failure

def parseBlockItems (hs : Handles) : Nat → Parse (List Tree)
  | 0 => failure
  | fuel + 1 => do
    match ← peek with
    | some .blockEntry =>
      skip
      let x ← if endsBlockItem (← peek) then pure .blank else parseNode hs .block fuel
      return x :: (← parseBlockItems hs fuel)
    | some .blockEnd =>
      skip
      return []
    | _ => failure

/-- The items of a list that is not indented, which ends where something else comes. -/
def parseLooseItems (hs : Handles) : Nat → Parse (List Tree)
  | 0 => failure
  | fuel + 1 => do
    if ← skips .blockEntry then
      let x ← if endsLooseItem (← peek) then pure .blank else parseNode hs .block fuel
      return x :: (← parseLooseItems hs fuel)
    else return []

def parseBlockPart (hs : Handles) : Nat → Parse Tree
  | 0 => failure
  | fuel + 1 => do if endsBlockPart (← peek) then return .blank else parseNode hs .blockMap fuel

def parseBlockEntries (hs : Handles) : Nat → Parse (List (Tree × Tree))
  | 0 => failure
  | fuel + 1 => do
    match ← peek with
    | some .key =>
      skip
      let k ← parseBlockPart hs fuel
      let v ← if ← skips .value then parseBlockPart hs fuel else pure .blank
      return (k, v) :: (← parseBlockEntries hs fuel)
    | some .blockEnd =>
      skip
      return []
    | _ => failure

/-- An item of a bracketed list: a node, or a map of one entry. Where that entry has no key, the
token in its place is passed over. -/
def parseFlowItem (hs : Handles) : Nat → Parse Tree
  | 0 => failure
  | fuel + 1 => do
    if ← skips .key then
      let next ← peek
      let k ← if next == some .value || endsFlowItem next then (do skip; return .blank)
        else parseNode hs .flow fuel
      if ← skips .value then
        let v ← if endsFlowItem (← peek) then pure .blank else parseNode hs .flow fuel
        return .map none [(k, v)]
      else return .map none [(k, .blank)]
    else parseNode hs .flow fuel

def parseFlowItems (hs : Handles) (first : Bool) : Nat → Parse (List Tree)
  | 0 => failure
  | fuel + 1 => do
    if ← skips .flowListEnd then return []
    unless first do
      unless ← skips .flowEntry do failure
    if ← skips .flowListEnd then return []
    let x ← parseFlowItem hs fuel
    return x :: (← parseFlowItems hs false fuel)

def parseFlowEntry (hs : Handles) : Nat → Parse (Tree × Tree)
  | 0 => failure
  | fuel + 1 => do
    if ← skips .key then
      let next ← peek
      let k ← if next == some .value || endsFlowPart next then pure .blank
        else parseNode hs .flow fuel
      if ← skips .value then
        let v ← if endsFlowPart (← peek) then pure .blank else parseNode hs .flow fuel
        return (k, v)
      else return (k, .blank)
    else return (← parseNode hs .flow fuel, .blank)

def parseFlowEntries (hs : Handles) (first : Bool) : Nat → Parse (List (Tree × Tree))
  | 0 => failure
  | fuel + 1 => do
    if ← skips .flowMapEnd then return []
    unless first do
      unless ← skips .flowEntry do failure
    if ← skips .flowMapEnd then return []
    let e ← parseFlowEntry hs fuel
    return e :: (← parseFlowEntries hs false fuel)

end

def directives? : List Token → Bool → Handles → Option (Handles × List Token)
  | .version major minor :: ts, versioned, hs =>
    if versioned || major != 1 || (minor != 1 && minor != 2) then none
    else directives? ts true hs
  | .tagDirective handle lead :: ts, versioned, hs =>
    if hs.any (·.1 == handle) then none else directives? ts versioned (hs ++ [(handle, lead)])
  | ts, _, hs => some (hs, ts)

def startsDocument : Option Token → Bool
  | some (.version _ _) | some (.tagDirective _ _) | some .documentStart => true
  | _ => false

def endsDocument (t : Option Token) : Bool :=
  startsDocument t || t == some .documentEnd || t.isNone

def rootNode? (hs : Handles) (ts : List Token) : Option (Tree × List Token) :=
  ((parseNode (hs ++ Handles.standard) .block (8 * ts.length + 8)).run ⟨ts, []⟩).map fun (t, a) =>
    (t, a.tokens)

def document? (ts : List Token) : Option (Tree × List Token) :=
  if startsDocument ts.head? then
    match directives? ts false [] with
    | some (hs, .documentStart :: ts) =>
      if endsDocument ts.head? then some (.blank, ts) else rootNode? hs ts
    | _ => none
  else rootNode? [] ts

def Tree.ofTokens? (ts : List Token) : Option Tree :=
  if ts.isEmpty then some .blank
  else
    (document? ts).bind fun (t, rest) =>
      if rest.all (· == .documentEnd) then some t else none

end RegAtlas.Yaml
