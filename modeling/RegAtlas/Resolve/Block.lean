import RegAtlas.RegisterMap
import RegAtlas.Resolve.AlwaysWrite
import RegAtlas.Resolve.Field

namespace RegAtlas.Resolve

open Listing (BlockSpec BlockUse TemplateSpec)

structure Context where
  defaultWidth : Option Nat
  enums : Named Enumeration

def template (context : Context) (here : Breadcrumb) (name : String) (spec : TemplateSpec) :
    Build TemplateRegister := do
  let access ← liftM (access spec.access here)
  let width ← liftM (width spec.width context.defaultWidth here)
  let fields ← fields context.enums access spec.fields here
  let alwaysWrite ← alwaysWrite spec.alwaysWrite here
  let docs ← liftM (docs spec.brief spec.doc here)
  return ⟨name, spec.offset, width, fields, spec.resetValue, alwaysWrite, docs⟩

/-- Template registers in the order of their names. `seen` holds the offsets of those before, with
their names. -/
def templateList (context : Context) (place : Breadcrumb) :
    List (String × TemplateSpec) → List (Word × String) → Build (List (String × TemplateRegister))
  | [], _ => return []
  | (name, spec) :: rest, seen => do
    let here := place ++ [name]
    liftM (checkName name here)
    match seen.find? (·.1 == spec.offset) with
    | some (_, existing) =>
      liftM (refuse (here ++ ["offset"]) (.duplicateAddress spec.offset name existing))
    | none =>
      let register ← template context here name spec
      return (name, register) :: (← templateList context place rest ((spec.offset, name) :: seen))

def block (context : Context) (place : Breadcrumb) (name : String) (spec : BlockSpec) :
    Build BlockTemplate := do
  let here := place ++ [name]
  liftM (checkName name here)
  let docs ← liftM (docs spec.brief spec.doc here)
  let registers ← templateList context (here ++ ["registers"]) spec.registers.entries []
  let registers := Table.ofList registers
  .report (.blockBuilt here registers.size)
  return ⟨name, docs, registers, .empty⟩

def replaceFirst? (old new : List Char) : List Char → Option (List Char)
  | [] => none
  | c :: cs =>
    if old.isPrefixOf (c :: cs) then some (new ++ (c :: cs).drop old.length)
    else (replaceFirst? old new cs).map (c :: ·)

/-- The name of the instance with this id: the id behind the name, or in the place of the text that
it replaces. -/
def instanceName (name id : String) (replace : Option String) (place : Breadcrumb) :
    Except Fault String :=
  match replace with
  | none => .ok (name ++ id)
  | some old =>
    match if old.isEmpty then none else replaceFirst? old.toList id.toList name.toList with
    | some cs => .ok (String.ofList cs)
    | none => refuse (place ++ ["replace_str_with_instance_id"]) (.replaceNotFound old name)

def instances (name : String) (use : BlockUse) (place : Breadcrumb) :
    Except Fault (List (String × Word)) :=
  match use.start with
  | .single address =>
    if use.replace.isSome then
      refuse (place ++ ["replace_str_with_instance_id"]) .replaceWithoutIds
    else .ok [(name, address)]
  | .byId addresses =>
    addresses.entries.mapM fun e => return (← instanceName name e.1 use.replace place, e.2)

def stamp (block instanceName : String) (start : Word) (place : Breadcrumb)
    (t : TemplateRegister) : Except Fault Register :=
  match start.add? t.offset with
  | none => refuse (place ++ [t.name]) (.addressOverflow start t.offset)
  | some address => .ok {
      name := instanceName ++ t.name, address := some address, width := t.width,
      fields := t.fields, resetValue := t.resetValue, alwaysWrite := t.alwaysWrite,
      origin := some ⟨block, instanceName, t.name⟩, docs := t.docs }

end RegAtlas.Resolve
