import RegAtlas.Journal
import RegAtlas.RegisterMap

namespace RegAtlas

/-- What registers and template registers have in common, and is checked of both. -/
structure RegisterForm where
  width : Nat
  fields : Named Field
  resetValue : Option Word
  alwaysWrite : Option AlwaysWrite
deriving Repr, DecidableEq

def Register.form (r : Register) : RegisterForm := ⟨r.width, r.fields, r.resetValue, r.alwaysWrite⟩

def TemplateRegister.form (t : TemplateRegister) : RegisterForm :=
  ⟨t.width, t.fields, t.resetValue, t.alwaysWrite⟩

namespace Check

abbrev Checked := Logged Fault Unit

def refuse (place : Breadcrumb) (cause : Cause) : Checked := .fail (.located place cause)

def accept : Checked := pure ()

def require (ok : Bool) (place : Breadcrumb) (cause : Cause) : Checked :=
  if ok then accept else refuse place cause

def inside (bits all : BitSet) (width : Nat) (place : Breadcrumb) : Checked :=
  let outside := bits.diff all
  require outside.isEmpty place (.outsideRegister outside width)

def freeBits (place : Breadcrumb) (earlier : List Field) (name : String) : List Nat → Checked
  | [] => accept
  | b :: bs => do
    .report (.bitVisited place b)
    match earlier.find? (·.bits.contains b) with
    | some other => refuse (place ++ ["bits"]) (.fieldsOverlap other.name name b)
    | none => freeBits place earlier name bs

def entry (place : Breadcrumb) (f : Field) (e : Enumeration) (entry : EnumEntry) : Checked :=
  require (entry.value.within f.unpositionedMask) (place ++ ["enum", entry.name])
    (.entryOutsideField entry.value e.name f.unpositionedMask)

def enumeration (place : Breadcrumb) (f : Field) : Checked :=
  match f.enumeration with
  | none => accept
  | some e => e.entries.values.forM (entry place f e)

def field (place : Breadcrumb) (all : BitSet) (width : Nat) (earlier : List Field) (f : Field) :
    Checked := do
  let here := place ++ ["fields", f.name]
  inside f.bits all width (here ++ ["bits"])
  freeBits here earlier f.name f.bits.positions
  enumeration here f

def fields (place : Breadcrumb) (all : BitSet) (width : Nat) : List Field → List Field → Checked
  | _, [] => accept
  | earlier, f :: fs => do
    field place all width earlier f
    fields place all width (f :: earlier) fs

def unowned (place : Breadcrumb) (fs : List Field) : List Nat → Checked
  | [] => accept
  | b :: bs =>
    match fs.find? (·.bits.contains b) with
    | some owner => refuse place (.alwaysWriteOverlap owner.name b)
    | none => unowned place fs bs

def alwaysWrite (place : Breadcrumb) (all : BitSet) (width : Nat) (fs : List Field)
    (aw : AlwaysWrite) : Checked := do
  inside aw.bits all width place
  unowned place fs aw.bits.positions
  require (aw.value.within aw.bits.mask) place (.alwaysWriteOutsideMask aw.value aw.bits.mask)

def form (place : Breadcrumb) (f : RegisterForm) : Checked := do
  let all ← liftM ((BitSet.ofSpan 0 f.width).mapError fun e => Fault.located place (.bit e))
  fields place all f.width [] f.fields.values
  match f.alwaysWrite with
  | none => accept
  | some aw => alwaysWrite (place ++ ["always_write"]) all f.width f.fields.values aw
  match f.resetValue with
  | none => accept
  | some v => require (v.fits f.width) (place ++ ["reset_val"]) (.resetTooWide v f.width)

def address (place : Breadcrumb) (earlier : List (String × Register)) (name : String)
    (r : Register) : Checked :=
  match r.address with
  | none => accept
  | some a =>
    match earlier.find? fun e => e.2.address == some a with
    | some (existing, _) => refuse place (.duplicateAddress a name existing)
    | none => accept

def registers (place : Breadcrumb) :
    List (String × Register) → List (String × Register) → Checked
  | _, [] => accept
  | earlier, (name, r) :: rest => do
    address (place ++ [name]) earlier name r
    form (place ++ [name]) r.form
    registers place ((name, r) :: earlier) rest

def block (place : Breadcrumb) (b : String × BlockTemplate) : Checked :=
  b.2.registers.entries.forM fun t => form (place ++ [b.1, "registers", t.1]) t.2.form

end Check

/-- Whether the map is sound, and if not, its first flaw. -/
def RegisterMap.check (m : RegisterMap) : Logged Fault Unit := do
  Check.registers [m.name, "registers"] [] m.registers.entries
  m.blocks.entries.forM (Check.block [m.name, "register_block_templates"])
  .report (.mapChecked m.name m.registers.size)

end RegAtlas
