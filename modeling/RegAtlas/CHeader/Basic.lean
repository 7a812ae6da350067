import RegAtlas.CHeader.Word
import RegAtlas.Docs

namespace RegAtlas.CHeader

structure Define where
  name : String
  value : Literal
  comment : String
deriving Repr, DecidableEq

structure Enumerator where
  name : String
  value : Word
  docs : Docs
deriving Repr, DecidableEq

structure EnumDecl where
  tag : String
  docs : Docs
  entries : List Enumerator
deriving Repr, DecidableEq

inductive MemberType where
  | word (type : CWord)
  | enumeration (tag : String)
deriving Repr, DecidableEq

def MemberType.text : MemberType → String
  | word type => type.text
  | enumeration tag => "enum " ++ tag

structure Member where
  name : String
  type : MemberType
  width : Option Nat
  docs : Docs
deriving Repr, DecidableEq

structure StructDecl where
  tag : String
  docs : Docs
  members : List Member
deriving Repr, DecidableEq

/-- Bits of a packed value that do not come from a member. -/
structure FixedBits where
  mask : Word
  value : Word
deriving Repr, DecidableEq

/-- Puts a member into a packed value: its bits inside `unpositioned` go to those of `mask`. -/
structure PackStep where
  comment : String
  member : String
  mask : Word
  unpositioned : Word
  shift : Nat
deriving Repr, DecidableEq

structure UnpackStep where
  member : String
  type : MemberType
  mask : Word
  shift : Nat
deriving Repr, DecidableEq

inductive Function where
  | overwrite (name tag : String) (packed : CWord) (fixed : Option FixedBits)
    (steps : List PackStep)
  | pack (name tag : String) (packed : CWord) (through : String)
  | unpackInto (name tag : String) (packed : CWord) (steps : List UnpackStep)
  | unpack (name tag : String) (packed : CWord) (through : String)
deriving Repr, DecidableEq

def Function.name : Function → String
  | overwrite name _ _ _ _ | pack name _ _ _ | unpackInto name _ _ _ | unpack name _ _ _ => name

/-- A macro that calls the function for the type of the struct it is given. -/
structure Dispatch where
  name : String
  parameters : String
  cases : List (String × String)
deriving Repr, DecidableEq

inductive Item where
  | blank
  | formatOff
  | formatOn
  | fileComment (lines : List String)
  | guardStart (name : String)
  | guardEnd (name : String)
  | systemHeader (file : String)
  | ownHeader (file : String)
  | comment (line : String)
  | banner (title : String)
  | rule (title : String)
  | brief (text : String)
  | defines (rows : List (Option Define))
  | enumeration (decl : EnumDecl)
  | struct (decl : StructDecl)
  | function (f : Function)
  | dispatch (d : Dispatch)
deriving Repr, DecidableEq

abbrev Header := List Item

end RegAtlas.CHeader
