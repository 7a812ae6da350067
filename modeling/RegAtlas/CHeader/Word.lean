import RegAtlas.Numeral

namespace RegAtlas.CHeader

inductive CWord where
  | w8
  | w16
  | w32
  | w64
deriving Repr, DecidableEq

namespace CWord

def width : CWord → Nat
  | w8 => 8
  | w16 => 16
  | w32 => 32
  | w64 => 64

def text : CWord → String
  | w8 => "uint8_t"
  | w16 => "uint16_t"
  | w32 => "uint32_t"
  | w64 => "uint64_t"

/-- The smallest type that holds `width` bits. There is none for no bits at all. -/
def fitting? (width : Nat) : Option CWord :=
  if width = 0 then none
  else if width ≤ 8 then some w8
  else if width ≤ 16 then some w16
  else if width ≤ 32 then some w32
  else if width ≤ 64 then some w64
  else none

end CWord

inductive Literal where
  | plain (value : Word)
  /-- Hexadecimal, with the suffix of the long type for a value of more than 32 bits. -/
  | sized (value : Word)
  | decimal (n : Nat)
deriving Repr, DecidableEq

namespace Literal

def value : Literal → Nat
  | plain v | sized v => v.toNat
  | decimal n => n

def text : Literal → String
  | plain v => Numeral.hexUpper v ++ "U"
  | sized v => Numeral.hexUpper v ++ if v.toNat < 1 <<< 32 then "U" else "ULL"
  | decimal n => toString n ++ "U"

end Literal

end RegAtlas.CHeader
