import RegAtlas.Document.Node
import RegAtlas.Listing.Entry
import RegAtlas.Text.Quoted

namespace RegAtlas.Listing

inductive Wanted where
  | position
  | word
  | text
  | map
  | null
  | record (name : String)
deriving Repr, DecidableEq

def Wanted.describe : Wanted → String
  | position => "u32"
  | word => "u64"
  | text => "a string"
  | map => "a map"
  | null => "null"
  | record name => s!"struct {name}"

inductive ReadError where
  | wrongType (found : String) (wanted : Wanted)
  | outOfRange (value : Int) (wanted : Wanted)
  | unknownKey (key : String) (known : List String)
  | repeatedKey (key : String)
  | missingKey (key : String)
  | tooFewItems (given : Nat) (record : String) (size : Nat)
  | tooManyItems (given : Nat)
  | noAlternative (name : String)
  | entry (error : EntryError)
deriving Repr, DecidableEq

def oneOf : List String → String
  | [a, b] => "`" ++ a ++ "` or `" ++ b ++ "`"
  | [a] => "`" ++ a ++ "`"
  | names => "one of " ++ ", ".intercalate (names.map fun n => "`" ++ n ++ "`")

def ReadError.message : ReadError → String
  | wrongType found wanted => s!"invalid type: {found}, expected {wanted.describe}"
  | outOfRange value wanted =>
    s!"invalid value: integer `{toString value}`, expected {wanted.describe}"
  | unknownKey key known => "unknown field `" ++ key ++ "`, expected " ++ oneOf known
  | repeatedKey key => "duplicate field `" ++ key ++ "`"
  | missingKey key => "missing field `" ++ key ++ "`"
  | tooFewItems given record size =>
    s!"invalid length {given}, expected struct {record} with {size} elements"
  | tooManyItems given => s!"invalid length {given}, expected fewer elements in array"
  | noAlternative name => s!"data did not match any variant of untagged enum {name}"
  | entry error => error.message

def describeValue : Value → String
  | .null => "null"
  | .bool b => "boolean `" ++ (if b then "true" else "false") ++ "`"
  | .nat n => "integer `" ++ toString n ++ "`"
  | .negative i => "integer `" ++ toString i ++ "`"
  | .real text => "floating point `" ++ text ++ "`"
  | .text s => "string " ++ Text.quoted s
  | .misfit _ => "misfit"

def describe : Node → String
  | .leaf v _ => describeValue v
  | .list _ => "sequence"
  | .map _ => "map"
  | .tagged n => describe n

abbrev Read (α : Type) := Except ReadError α

def readNat (limit : Nat) (wanted : Wanted) : Node → Read Nat
  | .leaf v spelling =>
    match spelling, v with
    | some s, _ =>
      match s.number with
      | some n => if n < limit then .ok n else .error (.outOfRange n wanted)
      | none => .error (.wrongType (describeValue v) wanted)
    | none, .nat n => if n < limit then .ok n else .error (.outOfRange n wanted)
    | none, .negative i => .error (.outOfRange i wanted)
    | none, v => .error (.wrongType (describeValue v) wanted)
  | .tagged n => readNat limit wanted n
  | n => .error (.wrongType (describe n) wanted)

def readPosition (n : Node) : Read Nat := readNat (1 <<< 32) .position n

def readWord (n : Node) : Read Word := (readNat (1 <<< wordSize) .word n).map (BitVec.ofNat 64)

def readText : Node → Read String
  | .leaf _ (some s) => .ok s.text
  | .leaf (.text s) none => .ok s
  | .tagged n => readText n
  | n => .error (.wrongType (describe n) .text)

/-- Something that may be missing. Null stands for it, unless it is quoted. -/
def readOption {α : Type} (read : Node → Read α) (n : Node) : Read (Option α) :=
  match n with
  | .leaf .null none => .ok none
  | .leaf .null (some s) => if s.plain then .ok none else (read n).map some
  | .leaf (.misfit .null) (some s) =>
    if s.plain then .error (.wrongType (Text.quoted s.text) .null) else (read n).map some
  | n => (read n).map some

def isBlankLeaf : Node → Bool
  | .leaf _ (some s) => s.plain && s.text.isEmpty
  | .tagged n => isBlankLeaf n
  | _ => false

/-- The pairs of a table. The last of several with one key stays. -/
def readPairs {α : Type} (read : Node → Read α) :
    List (Node × Node) → Named α → Read (Named α)
  | [], t => .ok t
  | (k, v) :: es, t => do
    let key ← readText k
    let value ← read v
    readPairs read es (t.insert key value)

def readTable {α : Type} (read : Node → Read α) (n : Node) : Read (Named α) :=
  match n with
  | .map es => readPairs read es .empty
  | .tagged (.map es) => readPairs read es .empty
  | n => if isBlankLeaf n then .ok .empty else .error (.wrongType (describe n) .map)

/-- A key of a record, and how a draft takes in its value. One with a default may be left out of a
list of all of them. -/
structure Key (δ : Type) where
  name : String
  alias? : Option String
  hasDefault : Bool
  put : Node → δ → Read δ

variable {α δ : Type}

/-- Reads a value and sets a part of the draft to it. -/
def putting (read : Node → Read α) (set : δ → α → δ) (n : Node) (d : δ) : Read δ :=
  (read n).map (set d)

def Key.plain (name : String) (read : Node → Read α) (set : δ → α → δ) : Key δ :=
  ⟨name, none, false, putting read set⟩

def Key.optional (name : String) (read : Node → Read α) (set : δ → α → δ) : Key δ :=
  ⟨name, none, true, putting read set⟩

/-- The name and the keys of a record, in the order in which a list gives them. -/
structure Shape (δ : Type) where
  name : String
  keys : List (Key δ)

namespace Shape

def names (s : Shape δ) : List String := s.keys.flatMap fun k => k.name :: k.alias?.toList

def index? (s : Shape δ) (key : String) : Option Nat :=
  s.keys.findIdx? fun k => k.name == key || k.alias? == some key

/-- The position that a key stands for. Where keys have types, a number is a position itself. -/
def locate (s : Shape δ) (key : Node) : Read Nat :=
  match key with
  | .leaf (.nat n) none =>
    if n < s.keys.length then .ok n else .error (.outOfRange n (.record s.name))
  | key => do
    let name ← readText key
    match s.index? name with
    | some i => return i
    | none => throw (.unknownKey name s.names)

def put (s : Shape δ) (i : Nat) (n : Node) (d : δ) : Read δ :=
  match s.keys[i]? with
  | some key => key.put n d
  | none => .ok d

def readEntries (s : Shape δ) : List (Node × Node) → List Nat → δ → Read δ
  | [], _, d => .ok d
  | (k, v) :: es, seen, d => do
    let i ← s.locate k
    if seen.contains i then throw (.repeatedKey ((s.keys[i]?.map Key.name).getD ""))
    let d ← s.put i v d
    s.readEntries es (i :: seen) d

def readItems (s : Shape δ) (given : Nat) : Nat → List Node → δ → Read δ
  | i, [], d =>
    match (s.keys.drop i).findIdx? fun k => !k.hasDefault with
    | some k => .error (.tooFewItems (i + k) s.name s.keys.length)
    | none => .ok d
  | i, n :: ns, d =>
    if i < s.keys.length then do
      let d ← s.put i n d
      s.readItems given (i + 1) ns d
    else .error (.tooManyItems given)

/-- A record from a map or from a list of its values. -/
def read (s : Shape δ) (start : δ) (finish : δ → Read α) (n : Node) : Read α :=
  match n with
  | .map es | .tagged (.map es) => do finish (← s.readEntries es [] start)
  | .list ns | .tagged (.list ns) => do finish (← s.readItems ns.length 0 ns start)
  | n =>
    if isBlankLeaf n then finish start else .error (.wrongType (describe n) (.record s.name))

end Shape

end RegAtlas.Listing
