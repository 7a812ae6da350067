import RegAtlas.Table.Basic
import RegAtlas.Word

namespace RegAtlas

namespace Listing

inductive BitItem where
  | bit (position : Nat)
  | range (text : String)
deriving Repr, DecidableEq

inductive BitSpec where
  | bit (position : Nat)
  | range (text : String)
  | span (lsb width : Nat)
  | list (items : List BitItem)
deriving Repr, DecidableEq

inductive AccessSpec where
  | single (mode : String)
  | list (modes : List String)
deriving Repr, DecidableEq

structure EntrySpec where
  value : Word
  brief : Option String
  doc : Option String
deriving Repr, DecidableEq

inductive EnumSpec where
  | shared (name : String)
  | own (entries : Named EntrySpec)
deriving Repr, DecidableEq

structure FieldSpec where
  bits : BitSpec
  access : Option AccessSpec
  brief : Option String
  doc : Option String
  enumeration : Option EnumSpec
deriving Repr, DecidableEq

/-- An always-write value: for all bits together, or for each part of a list of bits. -/
inductive ValueSpec where
  | single (value : Word)
  | list (values : List Word)
deriving Repr, DecidableEq

structure AlwaysWriteSpec where
  bits : BitSpec
  value : ValueSpec
deriving Repr, DecidableEq

structure RegisterSpec where
  fields : Named FieldSpec
  address : Option Word
  width : Option Nat
  access : Option AccessSpec
  resetValue : Option Word
  alwaysWrite : Option AlwaysWriteSpec
  brief : Option String
  doc : Option String
deriving Repr, DecidableEq

inductive StartSpec where
  | single (address : Word)
  | byId (addresses : Named Word)
deriving Repr, DecidableEq

structure BlockUse where
  block : String
  start : StartSpec
  replace : Option String
deriving Repr, DecidableEq

inductive Entry where
  | register (spec : RegisterSpec)
  | block (use : BlockUse)
deriving Repr, DecidableEq

structure TemplateSpec where
  offset : Word
  fields : Named FieldSpec
  width : Option Nat
  access : Option AccessSpec
  resetValue : Option Word
  alwaysWrite : Option AlwaysWriteSpec
  brief : Option String
  doc : Option String
deriving Repr, DecidableEq

structure BlockSpec where
  registers : Named TemplateSpec
  brief : Option String
  doc : Option String
deriving Repr, DecidableEq

structure SharedEnumSpec where
  entries : Named EntrySpec
  brief : Option String
  doc : Option String
deriving Repr, DecidableEq

end Listing

structure Listing where
  name : String
  defaultWidth : Option Nat
  brief : Option String
  doc : Option String
  author : Option String
  note : Option String
  registers : Named Listing.Entry
  enums : Named Listing.SharedEnumSpec
  blocks : Named Listing.BlockSpec
deriving Repr, DecidableEq

end RegAtlas
