import RegAtlas.Word

namespace RegAtlas.Numeral

def digit? (base : Nat) (c : Char) : Option Nat :=
  let value? :=
    if '0' ≤ c ∧ c ≤ '9' then some (c.toNat - '0'.toNat)
    else if 'a' ≤ c ∧ c ≤ 'f' then some (c.toNat - 'a'.toNat + 10)
    else if 'A' ≤ c ∧ c ≤ 'F' then some (c.toNat - 'A'.toNat + 10)
    else none
  value?.filter (· < base)

def readFrom? (base : Nat) : Nat → List Char → Option Nat
  | n, [] => some n
  | n, c :: cs => (digit? base c).bind fun d => readFrom? base (base * n + d) cs

def read? (base : Nat) (cs : List Char) : Option Nat :=
  if cs.isEmpty then none else readFrom? base 0 cs

def readPlus? (base : Nat) : List Char → Option Nat
  | '+' :: cs => read? base cs
  | cs => read? base cs

def word? (base : Nat) (cs : List Char) : Option Word := (readPlus? base cs).bind Word.ofNat?

def lower (base n : Nat) : String := String.ofList (Nat.toDigits base n)

def upper (base n : Nat) : String := String.ofList ((Nat.toDigits base n).map Char.toUpper)

def hex (w : Word) : String := "0x" ++ lower 16 w.toNat

def hexUpper (w : Word) : String := "0x" ++ upper 16 w.toNat

def binary (w : Word) : String := "0b" ++ lower 2 w.toNat

end RegAtlas.Numeral
