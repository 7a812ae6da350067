import RegAtlas.Docs
import RegAtlas.Table.Basic
import RegAtlas.Word

namespace RegAtlas

structure EnumEntry where
  name : String
  value : Word
  docs : Docs
deriving Repr, DecidableEq

structure Enumeration where
  name : String
  shared : Bool
  docs : Docs
  entries : Named EnumEntry
deriving Repr, DecidableEq

namespace Enumeration

def entryByValue (e : Enumeration) (value : Word) : Option EnumEntry :=
  e.entries.values.find? (·.value == value)

def entriesByValue (e : Enumeration) : List EnumEntry :=
  e.entries.values.mergeSort fun a b => a.value < b.value || (a.value == b.value && a.name ≤ b.name)

/-- The width that every entry fits, and no smaller one does. -/
def minWidth (e : Enumeration) : Nat :=
  e.entries.values.foldl (fun w entry => max w entry.value.bitLength) 0

end Enumeration

end RegAtlas
