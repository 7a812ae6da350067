import RegAtlas.BitSet.Basic
import RegAtlas.Enumeration

namespace RegAtlas

inductive Access where
  | read
  | write
deriving Repr, DecidableEq

def Access.text : Access → String
  | read => "r"
  | write => "w"

structure Field where
  name : String
  bits : BitSet
  access : List Access
  docs : Docs
  enumeration : Option Enumeration
deriving Repr, DecidableEq

namespace Field

def mask (f : Field) : Word := f.bits.mask

def unpositionedMask (f : Field) : Word := f.bits.unpositioned.mask

def accessText (f : Field) : String := "/".intercalate (f.access.map Access.text)

def entryByValue (f : Field) (value : Word) : Option EnumEntry :=
  f.enumeration.bind (·.entryByValue value)

def localEnum (f : Field) : Option Enumeration := f.enumeration.filter (!·.shared)

def extract (f : Field) (registerValue : Word) : Except BitError Word :=
  f.bits.extract registerValue

/-- Fields ascending by their lowest bit. Empty fields count as lying at 0. -/
def byPosition (fields : Named Field) : List Field :=
  fields.values.mergeSort fun a b => a.bits.lsb?.getD 0 ≤ b.bits.lsb?.getD 0

end Field

/-- Bits that are written with a fixed value, which is given in place. -/
structure AlwaysWrite where
  bits : BitSet
  value : Word
deriving Repr, DecidableEq

end RegAtlas
