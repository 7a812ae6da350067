import RegAtlas.Word

namespace RegAtlas

inductive ScalarType where
  | null
  | bool
  | integer
  | real
deriving Repr, DecidableEq

inductive Value where
  | null
  | bool (b : Bool)
  | nat (n : Nat)
  | negative (i : Int)
  | real (text : String)
  | text (s : String)
  /-- A scalar whose tag asks for a type that its text does not have. -/
  | misfit (wanted : ScalarType)
deriving Repr, DecidableEq

/-- What a reader finds who wants text, and what if a number is wanted. Only a plain scalar, which
is one without quotes, can stand for nothing. -/
structure Spelling where
  text : String
  number : Option Nat
  plain : Bool
deriving Repr, DecidableEq

/-- The pairs of a map stay in the order of the document, and a key may occur more than once. -/
inductive Node where
  | leaf (value : Value) (spelling : Option Spelling)
  | list (items : List Node)
  | map (entries : List (Node × Node))
  | tagged (node : Node)

namespace Node

instance : Inhabited Node := ⟨leaf .null none⟩

def text (s : String) : Node := leaf (.text s) none

def holdsInteger : Value → Bool
  | .nat n => n < 1 <<< wordSize
  | .negative i => -(1 <<< (wordSize - 1) : Nat) ≤ i
  | _ => true

def typedLeaf? : Value → Option Node
  | .misfit _ => none
  | .negative 0 => some (leaf (.nat 0) none)
  | v => if holdsInteger v then some (leaf v none) else none

mutual

/-- The node with every scalar reduced to its type, which is all that a reader sees who does not
know what to expect. Tags of an application's own cannot be read this way. -/
def typed? : Node → Option Node
  | leaf v _ => typedLeaf? v
  | list xs => (typedItems? xs).map list
  | map es => (typedPairs? es).map map
  | tagged _ => none

def typedItems? : List Node → Option (List Node)
  | [] => some []
  | x :: xs => (typed? x).bind fun y => (typedItems? xs).map (y :: ·)

def typedPairs? : List (Node × Node) → Option (List (Node × Node))
  | [] => some []
  | e :: es => (typedPair? e).bind fun f => (typedPairs? es).map (f :: ·)

def typedPair? : Node × Node → Option (Node × Node)
  | (k, v) => (typed? k).bind fun k' => (typed? v).map fun v' => (k', v')

end

end Node

end RegAtlas
