import RegAtlas.Resolve.Basic

namespace RegAtlas.Resolve

open Listing (BitItem BitSpec)

/-- One end of a range: digits, with blanks around them, of a number that a position can have. -/
def rangeEnd? (cs : List Char) : Option Nat :=
  let cs := Text.trim cs
  if cs.all Char.isDigit then (Numeral.read? 10 cs).filter (· ≤ maxPosition) else none

def splitAtDash? : List Char → Option (List Char × List Char)
  | [] => none
  | c :: cs =>
    if c = '-' then some ([], cs) else (splitAtDash? cs).map fun (a, b) => (c :: a, b)

def rangeEnds? (text : String) : Option (Nat × Nat) :=
  (splitAtDash? text.toList).bind fun (a, b) =>
    (rangeEnd? a).bind fun m => (rangeEnd? b).map fun n => (m, n)

def interval (first last : Nat) : List Nat := (List.range (last + 1 - first)).map (first + ·)

/-- The positions of a range whose ends may be written in either order. -/
def rangePositions (text : String) (place : Breadcrumb) : Except Fault (List Nat) :=
  match rangeEnds? text with
  | none => refuse place (.notABitRange text)
  | some (m, n) =>
    if wordSize ≤ max m n then refuse place (.bit (.positionTooLarge (max m n)))
    else .ok (interval (min m n) (max m n))

def itemPositions (place : Breadcrumb) : BitItem → Except Fault (List Nat)
  | .bit position => .ok [position]
  | .range text => rangePositions text place

def atPlace {α : Type} (place : Breadcrumb) (r : Except BitError α) : Except Fault α :=
  r.mapError fun e => .located place (.bit e)

def components (place : Breadcrumb) : BitSpec → Except Fault (List (List Nat))
  | .bit position => .ok [[position]]
  | .range text => (rangePositions text place).map ([·])
  | .span lsb width => (atPlace place (BitRange.make lsb width)).map fun r => [r.positions]
  | .list items => items.mapM (itemPositions place)

def firstRepeated? : List Nat → List Nat → Option Nat
  | _, [] => none
  | seen, b :: bs => if seen.contains b then some b else firstRepeated? (b :: seen) bs

def positions (spec : BitSpec) (place : Breadcrumb) : Except Fault (List Nat) := do
  let all := (← components place spec).flatten
  match firstRepeated? [] all with
  | some b => refuse place (.repeatedBit b)
  | none => if all.isEmpty then refuse place .noBits else return all

def bits (spec : BitSpec) (place : Breadcrumb) : Build BitSet := do
  let place := place ++ ["bits"]
  let all ← liftM (positions spec place)
  .report (.bitsGiven place all)
  liftM (atPlace place (BitSet.ofList? all))

end RegAtlas.Resolve
