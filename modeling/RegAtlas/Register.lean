import RegAtlas.Field

namespace RegAtlas

/-- Which template register, of which instance of which block, a register was made from. -/
structure TemplateOrigin where
  block : String
  instanceName : String
  template : String
deriving Repr, DecidableEq

structure Register where
  name : String
  address : Option Word
  width : Nat
  fields : Named Field
  resetValue : Option Word
  alwaysWrite : Option AlwaysWrite
  origin : Option TemplateOrigin
  docs : Docs
deriving Repr, DecidableEq

inductive Segment where
  | field (f : Field)
  | alwaysWrite (expected : Word)
  | unused
deriving Repr, DecidableEq

namespace Register

/-- The positions of the register, none if its width is not one a register may have. -/
def allBits (r : Register) : BitSet := (BitSet.ofSpan 0 r.width).toOption.getD .empty

def fieldBits (r : Register) : BitSet :=
  r.fields.values.foldl (fun s f => s.union f.bits) .empty

/-- Bits that no field has. Always-write bits are among them only if asked for. -/
def unusedBits (r : Register) (withAlwaysWrite : Bool) : BitSet :=
  let unused := r.allBits.diff r.fieldBits
  match r.alwaysWrite, withAlwaysWrite with
  | some aw, false => unused.diff aw.bits
  | _, _ => unused

def fieldAt (r : Register) (position : Nat) : Option Field :=
  r.fields.values.find? (·.bits.contains position)

def isAlwaysWrite (r : Register) (position : Nat) : Bool :=
  r.alwaysWrite.any (·.bits.contains position)

/-- The value that `bits` must hold, moved down to position 0, if all of them are always-write bits
and there is one at all. -/
def alwaysWriteValue (r : Register) (bits : BitSet) : Option Word :=
  r.alwaysWrite.bind fun aw =>
    if (bits.diff aw.bits).isEmpty then (bits.extract aw.value).toOption else none

def fieldsByPosition (r : Register) : List Field := Field.byPosition r.fields

/-- The ranges of fields, of always-write bits and of unused bits, as far as they are known before
they are put in order. -/
def segments (r : Register) : List (BitRange × Segment) :=
  (r.fields.values.flatMap fun f => f.bits.ranges.map fun range => (range, .field f)) ++
  (r.alwaysWrite.elim [] fun aw =>
    aw.bits.ranges.map fun range => (range, .alwaysWrite (range.extract aw.value))) ++
  (r.unusedBits false).ranges.map fun range => (range, .unused)

/-- The register cut into ranges, the highest first, each with what occupies it. -/
def bitLayout (r : Register) : List (BitRange × Segment) :=
  r.segments.mergeSort fun a b => b.1.lsb ≤ a.1.lsb

end Register

end RegAtlas
