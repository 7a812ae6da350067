import RegAtlas.Numeral
import RegAtlas.Table.Basic
import RegAtlas.Text.Basic

namespace RegAtlas.Dump

def normalNumber (cs : List Char) : List Char :=
  ((Text.trim cs).filter (· != '_')).map Char.toLower

def readNormal? : List Char → Option Word
  | '0' :: 'x' :: cs => Numeral.word? 16 cs
  | '0' :: 'b' :: cs => Numeral.word? 2 cs
  | cs => Numeral.word? 10 cs

def number? (s : String) : Option Word := readNormal? (normalNumber s.toList)

/-- A number of a dump as it is written, which may also be as text. -/
inductive Written where
  | number (value : Word)
  | text (s : String)
deriving Repr, DecidableEq

namespace Written

instance : Ord Written where
  compare
    | number a, number b => compare a b
    | number _, text _ => .lt
    | text _, number _ => .gt
    | text a, text b => compare a b

instance : Std.LawfulEqOrd Written where
  compare_self {a} := by
    cases a with
    | number a => exact Std.compare_self (a := a)
    | text a => exact Std.compare_self (a := a)
  eq_of_compare {a b} h := by
    cases a <;> cases b
    next a b =>
      have h : compare a b = .eq := h
      exact congrArg number (Std.LawfulEqCmp.eq_of_compare h)
    next => exact Ordering.noConfusion h
    next => exact Ordering.noConfusion h
    next a b =>
      have h : compare a b = .eq := h
      exact congrArg text (Std.LawfulEqCmp.eq_of_compare h)

instance : Std.TransOrd Written where
  eq_swap {a b} := by
    cases a <;> cases b
    next a b => exact Std.OrientedOrd.eq_swap (a := a) (b := b)
    next => rfl
    next => rfl
    next a b => exact Std.OrientedOrd.eq_swap (a := a) (b := b)
  isLE_trans {a b c} hab hbc := by
    cases a <;> cases b <;> cases c
    next a b c =>
      have hab : (compare a b).isLE := hab
      have hbc : (compare b c).isLE := hbc
      have hac : (compare a c).isLE := Std.TransOrd.isLE_trans hab hbc
      exact hac
    next => rfl
    next => exact Bool.noConfusion hbc
    next => rfl
    next => exact Bool.noConfusion hab
    next => exact Bool.noConfusion hab
    next => exact Bool.noConfusion hbc
    next a b c =>
      have hab : (compare a b).isLE := hab
      have hbc : (compare b c).isLE := hbc
      have hac : (compare a c).isLE := Std.TransOrd.isLE_trans hab hbc
      exact hac

end Written

def Written.read : Written → Except String Word
  | .number v => .ok v
  | .text s => (number? s).elim (.error s) .ok

end RegAtlas.Dump
