import RegAtlas.Yaml.Token.Basic

namespace RegAtlas.Yaml

inductive Tree where
  | scalar (tag : Option String) (style : Style) (text : String)
  | list (tag : Option String) (items : List Tree)
  | map (tag : Option String) (entries : List (Tree × Tree))
  | anchored (slot : Nat) (node : Tree)
  | reference (slot : Nat)

namespace Tree

instance : Inhabited Tree := ⟨scalar none .plain ""⟩

def blank : Tree := scalar none .plain ""

mutual

def anchors : Tree → List (Nat × Tree)
  | scalar _ _ _ | reference _ => []
  | list _ xs => anchorsOfItems xs
  | map _ es => anchorsOfPairs es
  | anchored slot t => (slot, t) :: anchors t

def anchorsOfItems : List Tree → List (Nat × Tree)
  | [] => []
  | t :: ts => anchors t ++ anchorsOfItems ts

def anchorsOfPairs : List (Tree × Tree) → List (Nat × Tree)
  | [] => []
  | e :: es => anchorsOfPair e ++ anchorsOfPairs es

def anchorsOfPair : Tree × Tree → List (Nat × Tree)
  | (k, v) => anchors k ++ anchors v

end

mutual

/-- How many steps it takes to write the tree down. A list or map has a start and an end. -/
def steps : Tree → Nat
  | scalar _ _ _ | reference _ => 1
  | list _ xs => stepsOfItems xs + 2
  | map _ es => stepsOfPairs es + 2
  | anchored _ t => steps t

def stepsOfItems : List Tree → Nat
  | [] => 0
  | t :: ts => steps t + stepsOfItems ts

def stepsOfPairs : List (Tree × Tree) → Nat
  | [] => 0
  | e :: es => stepsOfPair e + stepsOfPairs es

def stepsOfPair : Tree × Tree → Nat
  | (k, v) => steps k + steps v

end

end Tree

end RegAtlas.Yaml
