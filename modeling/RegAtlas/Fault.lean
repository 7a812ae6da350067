import RegAtlas.BitSet.Basic

namespace RegAtlas

/-- The names of the elements around a fault, the outermost first. -/
abbrev Breadcrumb := List String

def Breadcrumb.text (b : Breadcrumb) : String := " -> ".intercalate b

inductive FaultKind where
  | schema
  | reference
  | range
  | overlap
  | fit
  | nonContiguousField
  | io
deriving Repr, DecidableEq

def FaultKind.label : FaultKind → String
  | schema => "Schema"
  | reference => "Reference"
  | range => "Range"
  | overlap => "Overlap"
  | fit => "Fit"
  | nonContiguousField => "NonContiguousField"
  | io => "Io"

inductive Cause where
  | unreadable
  | notIdentifier (name : String)
  | blankBrief
  | longBrief
  | blankBody
  | noEntries
  | unknownAccess (mode : String)
  | valuesWithoutBitList
  | valueCount (bits values : Nat)
  | replaceWithoutIds
  | replaceNotFound (text name : String)
  | noSuchEnum (name : String)
  | noSuchBlock (name : String)
  | widthOutOfRange (width : Nat)
  | noWidth
  | addressOverflow (start offset : Word)
  | notABitRange (text : String)
  | repeatedBit (position : Nat)
  | noBits
  | outsideRegister (bits : BitSet) (width : Nat)
  | sameValue (entry : String) (value : Word) (existing : String)
  | fieldsOverlap (first second : String) (position : Nat)
  | alwaysWriteOverlap (field : String) (position : Nat)
  | duplicateAddress (address : Word) (name existing : String)
  | duplicateName (name : String)
  | componentTooWide (value : Word) (bits : BitSet)
  | alwaysWriteOutsideMask (value mask : Word)
  | resetTooWide (value : Word) (width : Nat)
  | entryOutsideField (value : Word) (enumeration : String) (mask : Word)
  | bit (error : BitError)
  | stated (kind : FaultKind) (text : String)
deriving Repr, DecidableEq

namespace Cause

def kind : Cause → FaultKind
  | unreadable | notIdentifier _ | blankBrief | longBrief | blankBody | noEntries
  | unknownAccess _ | valuesWithoutBitList | valueCount _ _ | replaceWithoutIds
  | replaceNotFound _ _ => .schema
  | noSuchEnum _ | noSuchBlock _ => .reference
  | widthOutOfRange _ | noWidth | addressOverflow _ _ | notABitRange _ | repeatedBit _ | noBits
  | outsideRegister _ _ => .range
  | sameValue _ _ _ | fieldsOverlap _ _ _ | alwaysWriteOverlap _ _ | duplicateAddress _ _ _
  | duplicateName _ => .overlap
  | componentTooWide _ _ | alwaysWriteOutsideMask _ _ | resetTooWide _ _
  | entryOutsideField _ _ _ => .fit
  | bit (.notContiguous _) => .nonContiguousField
  | bit _ => .range
  | stated kind _ => kind

def detail : Cause → String
  | unreadable => ""
  | notIdentifier name =>
    s!"name '{name}' must start with a letter or '_' and contain only letters, digits and '_'"
  | blankBrief => "brief does not contain text"
  | longBrief => "brief may not contain more than one line"
  | blankBody => "doc does not contain text"
  | noEntries => "enum has no entries"
  | unknownAccess mode => s!"unknown access mode '{mode}'"
  | valuesWithoutBitList => "val may only be a list if bits is a list"
  | valueCount bits values => s!"bits and val lists must have the same length ({bits} vs {values})"
  | replaceWithoutIds => "only allowed if start_adr maps instance ids to addresses"
  | replaceNotFound text name => s!"'{text}' does not occur in '{name}'"
  | noSuchEnum name => s!"shared enum '{name}' does not exist"
  | noSuchBlock name => s!"register block template '{name}' does not exist"
  | widthOutOfRange width => s!"bitwidth {width} is not between 1 and {wordSize}"
  | noWidth => "register does not specify a bitwidth and no default_register_bitwidth is set"
  | addressOverflow start offset =>
    s!"start address {Numeral.hex start} plus offset {Numeral.hex offset} overflows"
  | notABitRange text => s!"invalid bit range '{text}', expected \"msb-lsb\""
  | repeatedBit position => s!"bit {position} is specified more than once"
  | noBits => "bits may not be empty"
  | outsideRegister bits width =>
    s!"bits {bits.text} do not fit into a register of width {width}"
  | sameValue entry value existing =>
    s!"entry {entry} has value {Numeral.hex value}, same as entry {existing}"
  | fieldsOverlap first second position =>
    s!"fields {first} and {second} overlap at bit {position}"
  | alwaysWriteOverlap field position =>
    s!"always_write overlaps field {field} at bit {position}"
  | duplicateAddress address name existing =>
    s!"register {name} at {Numeral.hex address} collides with register {existing}"
  | duplicateName name => s!"{name} already exists"
  | componentTooWide value bits =>
    s!"value component {value.toNat} does not fit into bits {bits.text}"
  | alwaysWriteOutsideMask value mask =>
    s!"value {Numeral.hex value} does not fit into mask {Numeral.hex mask}"
  | resetTooWide value width => s!"reset value {Numeral.hex value} does not fit into {width} bits"
  | entryOutsideField value enumeration mask =>
    s!"value {value.toNat} of enum {enumeration} does not fit into field mask {Numeral.hex mask}"
  | bit error => error.message
  | stated _ text => text

/-- How the message opens. Equal names and addresses and bit errors have openings of their own. -/
def heading (c : Cause) : String :=
  match c with
  | duplicateAddress _ _ _ => "Duplicate address"
  | duplicateName _ => "Duplicate name"
  | bit _ => "Bit error"
  | _ => c.kind.label ++ " error"

end Cause

inductive FileFault where
  | notFound
  | isDirectory
  | notDirectory
  | denied
  | notText
  | failed (reason : String)
deriving Repr, DecidableEq

def FileFault.message : FileFault → String
  | notFound => "No such file or directory (os error 2)"
  | isDirectory => "Is a directory (os error 21)"
  | notDirectory => "Not a directory (os error 20)"
  | denied => "Permission denied (os error 13)"
  | notText => "stream did not contain valid UTF-8"
  | failed reason => reason

inductive Fault where
  | located (place : Breadcrumb) (cause : Cause)
  | file (fault : FileFault)
deriving Repr, DecidableEq

namespace Fault

def kind : Fault → FaultKind
  | located _ cause => cause.kind
  | file _ => .io

def place? : Fault → Option Breadcrumb
  | located place _ => some place
  | file _ => none

def message : Fault → String
  | located place cause => s!"{cause.heading} at {Breadcrumb.text place}: {cause.detail}"
  | file fault => s!"Failed to read input: {fault.message}"

end Fault

end RegAtlas
