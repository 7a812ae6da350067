import RegAtlas.Listing.Basic

namespace RegAtlas.Listing

structure RawEntry where
  block : Option String
  start : Option StartSpec
  replace : Option String
  fields : Option (Named FieldSpec)
  address : Option Word
  width : Option Nat
  access : Option AccessSpec
  resetValue : Option Word
  alwaysWrite : Option AlwaysWriteSpec
  brief : Option String
  doc : Option String
deriving Repr, DecidableEq

inductive EntryError where
  | onlyInBlock (key : String)
  | notInBlock (key block : String)
  | startMissing (block : String)
deriving Repr, DecidableEq

def EntryError.message : EntryError → String
  | onlyInBlock key => "`" ++ key ++ "` is only valid together with `register_block_template`"
  | notInBlock key block =>
    "`" ++ key ++ "` is not allowed in instantiation of block `" ++ block ++ "`"
  | startMissing block => "instantiation of block `" ++ block ++ "` is missing `start_adr`"

namespace RawEntry

def blockKeys (e : RawEntry) : List (String × Bool) :=
  [("start_adr", e.start.isSome), ("replace_str_with_instance_id", e.replace.isSome)]

def registerKeys (e : RawEntry) : List (String × Bool) :=
  [("fields", e.fields.isSome), ("adr", e.address.isSome), ("bitwidth", e.width.isSome),
    ("access", e.access.isSome), ("reset_val", e.resetValue.isSome),
    ("always_write", e.alwaysWrite.isSome), ("brief", e.brief.isSome), ("doc", e.doc.isSome)]

def firstGiven? (keys : List (String × Bool)) : Option String := (keys.find? (·.2)).map (·.1)

def toRegister (e : RawEntry) : Except EntryError RegisterSpec :=
  match firstGiven? e.blockKeys with
  | some key => .error (.onlyInBlock key)
  | none => .ok {
      fields := e.fields.getD .empty, address := e.address, width := e.width, access := e.access,
      resetValue := e.resetValue, alwaysWrite := e.alwaysWrite, brief := e.brief, doc := e.doc }

def toBlockUse (e : RawEntry) (block : String) : Except EntryError BlockUse :=
  match firstGiven? e.registerKeys, e.start with
  | some key, _ => .error (.notInBlock key block)
  | none, none => .error (.startMissing block)
  | none, some start => .ok { block := block, start := start, replace := e.replace }

/-- The entry as a register or an instantiation. A key of the other shape is refused. -/
def classify (e : RawEntry) : Except EntryError Entry :=
  match e.block with
  | none => e.toRegister.map .register
  | some block => (e.toBlockUse block).map .block

end RawEntry

end RegAtlas.Listing
