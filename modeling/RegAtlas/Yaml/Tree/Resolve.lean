import RegAtlas.Yaml.Scalar.Typing
import RegAtlas.Yaml.Tree.Basic

namespace RegAtlas.Yaml

/-- Lists and maps inside each other. -/
def maxDepth : Nat := 128

/-- How many references may still be followed is the state. -/
abbrev Resolve := StateT Nat Option

def follow : Resolve Unit := do
  match ← get with
  | 0 => failure
  | n + 1 => set n

def wrapTag (tag : Option String) (n : Node) : Node :=
  if tag.any (·.startsWith "!") then .tagged n else n

namespace Tree

mutual

/-- The node of a tree with at most `depth` further levels. A step of `fuel` is one into the tree
or along a reference. -/
def resolve (slots : List (Nat × Tree)) : Nat → Nat → Tree → Resolve Node
  | 0, _, _ => failure
  | fuel + 1, depth, t =>
    match t, depth with
    | scalar tag style text, _ => return scalarNode tag style text
    | anchored _ t, depth => resolve slots fuel depth t
    | reference slot, depth => do
      follow
      let target ← slots.find? (·.1 == slot)
      resolve slots fuel depth target.2
    | list _ _, 0 | map _ _, 0 => failure
    | list tag xs, depth + 1 => do return wrapTag tag (.list (← resolveItems slots fuel depth xs))
    | map tag es, depth + 1 => do return wrapTag tag (.map (← resolvePairs slots fuel depth es))

def resolveItems (slots : List (Nat × Tree)) : Nat → Nat → List Tree → Resolve (List Node)
  | 0, _, _ => failure
  | _, _, [] => return []
  | fuel + 1, depth, t :: ts => do
    let x ← resolve slots fuel depth t
    return x :: (← resolveItems slots fuel depth ts)

def resolvePairs (slots : List (Nat × Tree)) :
    Nat → Nat → List (Tree × Tree) → Resolve (List (Node × Node))
  | 0, _, _ => failure
  | _, _, [] => return []
  | fuel + 1, depth, (k, v) :: es => do
    let key ← resolve slots fuel depth k
    let value ← resolve slots fuel depth v
    return (key, value) :: (← resolvePairs slots fuel depth es)

end

/-- The node that a tree stands for. References may be followed a hundred times for each of its
steps, and a path through it takes no more than all its steps on every level. -/
def node? (t : Tree) : Option Node :=
  let fuel := (3 * t.steps + 3) * (maxDepth + 2)
  ((t.resolve t.anchors.reverse fuel maxDepth).run (100 * t.steps)).map (·.1)

end Tree

end RegAtlas.Yaml
