import RegAtlas.Numeral

namespace RegAtlas

inductive BitError where
  | emptyRange (lsb width : Nat)
  | positionTooLarge (position : Nat)
  | notContiguous (mask : Word)
  | emptySet
  | widthTooSmall (msb width : Nat)
  | shiftOverflow (bit amount : Nat)
deriving Repr, DecidableEq

def BitError.message : BitError → String
  | emptyRange lsb width =>
    s!"invalid bit range (lsb {lsb}, width {width}): width must be at least 1"
  | positionTooLarge position =>
    s!"bit position {position} exceeds the maximum supported width of {wordSize} bits"
  | notContiguous mask => s!"bits are not contiguous (mask {Numeral.hex mask})"
  | emptySet => "operation requires a non-empty bit set"
  | widthTooSmall msb width => s!"bit {msb} does not fit into a width of {width} bits"
  | shiftOverflow bit amount => s!"shifting bit {bit} left by {amount} exceeds {wordSize} bits"

end RegAtlas
