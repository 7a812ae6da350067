import RegAtlas.Resolve.Bits

namespace RegAtlas.Resolve

open Listing (AlwaysWriteSpec BitItem BitSpec ValueSpec)

def placedValue (place : Breadcrumb) (item : BitItem) (value : Word) : Except Fault Word := do
  let component ← atPlace place (BitSet.ofList? (← itemPositions place item))
  if value.fits component.spanWidth then
    return value <<< (← atPlace place component.lsb)
  else refuse place (.componentTooWide value component)

def joinValues (place : Breadcrumb) : List (BitItem × Word) → Word → Except Fault Word
  | [], joined => .ok joined
  | (item, value) :: rest, joined => do
    joinValues place rest (joined ||| (← placedValue place item value))

def writtenValue (place : Breadcrumb) (bits : BitSpec) : ValueSpec → Except Fault Word
  | .single value => .ok value
  | .list values =>
    match bits with
    | .list items =>
      if items.length = values.length then joinValues place (items.zip values) Word.zero
      else refuse place (.valueCount items.length values.length)
    | _ => refuse place .valuesWithoutBitList

def alwaysWrite (spec : Option AlwaysWriteSpec) (place : Breadcrumb) :
    Build (Option AlwaysWrite) := do
  match spec with
  | none => return none
  | some spec =>
    let place := place ++ ["always_write"]
    let set ← bits spec.bits place
    return some ⟨set, ← liftM (writtenValue place spec.bits spec.value)⟩

end RegAtlas.Resolve
