import RegAtlas.Check
import RegAtlas.Listing.Reader
import RegAtlas.Resolve.Block

namespace RegAtlas.Resolve

open Listing (BlockUse Entry RegisterSpec)

structure Assembly where
  blocks : Named BlockTemplate
  registers : Named Register

namespace Assembly

def nameAt? (a : Assembly) (address : Word) : Option String :=
  (a.registers.values.find? (·.address == some address)).map (·.name)

/-- Why a register cannot be added, if it cannot: its name or its address is taken. -/
def clash? (a : Assembly) (r : Register) : Option Cause :=
  if a.registers.contains r.name then some (.duplicateName r.name)
  else r.address.bind fun address =>
    (a.nameAt? address).map (.duplicateAddress address r.name ·)

def add (a : Assembly) (r : Register) (place : Breadcrumb) : Build Assembly := do
  liftM (checkName r.name place)
  match a.clash? r with
  | some cause => liftM (refuse place cause)
  | none =>
    .report (.registerAdded place r.name r.address)
    return { a with registers := a.registers.insert r.name r }

def addAll (a : Assembly) (rs : List Register) (place : Breadcrumb) : Build Assembly :=
  rs.foldlM (fun a r => a.add r place) a

def addInstance (a : Assembly) (blockName : String) (place : Breadcrumb)
    (named : String × Word) : Build Assembly := do
  match a.blocks.get? blockName with
  | none => liftM (refuse (place ++ ["register_block_template"]) (.noSuchBlock blockName))
  | some block =>
    if block.instances.contains named.1 then liftM (refuse place (.duplicateName named.1))
    else
      let registers ←
        liftM (block.registers.values.mapM (stamp blockName named.1 named.2 place))
      let a ← a.addAll registers place
      let block := { block with instances := block.instances.insert named.1 named.2 }
      return { a with blocks := a.blocks.insert blockName block }

end Assembly

def register (context : Context) (place : Breadcrumb) (name : String) (spec : RegisterSpec) :
    Build Register := do
  let access ← liftM (access spec.access place)
  let width ← liftM (width spec.width context.defaultWidth place)
  let fields ← fields context.enums access spec.fields place
  let alwaysWrite ← alwaysWrite spec.alwaysWrite place
  let docs ← liftM (docs spec.brief spec.doc place)
  return ⟨name, spec.address, width, fields, spec.resetValue, alwaysWrite, none, docs⟩

def entry (context : Context) (place : Breadcrumb) (a : Assembly) (e : String × Entry) :
    Build Assembly := do
  let here := place ++ [e.1]
  match e.2 with
  | .register spec => a.add (← register context here e.1 spec) here
  | .block use =>
    let instances ← liftM (instances e.1 use here)
    instances.foldlM (fun a named => a.addInstance use.block here named) a

end Resolve

open Resolve

/-- The map that a listing describes. Its registers are not checked against each other's layouts
yet. -/
def Listing.resolve (l : Listing) : Logged Fault RegisterMap := do
  let place := [l.name]
  liftM (checkName l.name (place ++ ["map_name"]))
  let docs ← liftM (docs l.brief l.doc place)
  let defaultWidth ← liftM
    (l.defaultWidth.mapM fun w => checkWidth w (place ++ ["default_register_bitwidth"]))
  let enums ← table (fun name spec => liftM (sharedEnum (place ++ ["enums"]) name spec)) l.enums
  .report (.enumsBuilt (place ++ ["enums"]) enums.size)
  let context : Context := ⟨l.defaultWidth, enums⟩
  let blocks ← table (block context (place ++ ["register_block_templates"])) l.blocks
  let done ← l.registers.entries.foldlM (entry context (place ++ ["registers"])) ⟨blocks, .empty⟩
  .report (.mapBuilt l.name done.registers.size enums.size done.blocks.size)
  return ⟨l.name, docs, l.author, l.note, defaultWidth, done.registers, enums, done.blocks⟩

def Listing.build (l : Listing) : Logged Fault RegisterMap := do
  let m ← l.resolve
  m.check
  return m

end RegAtlas
