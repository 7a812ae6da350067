import RegAtlas.Resolve.Bits

namespace RegAtlas.Resolve

open Listing (EntrySpec EnumSpec FieldSpec SharedEnumSpec)

variable {α β : Type}

def table (f : String → α → Build β) (t : Named α) : Build (Named β) := do
  return .ofList (← t.entries.mapM fun e => return (e.1, ← f e.1 e.2))

/-- Entries in the order of their names. `seen` holds the values of those before, with their
names. -/
def entryList (place : Breadcrumb) :
    List (String × EntrySpec) → List (Word × String) → Except Fault (List (String × EnumEntry))
  | [], _ => .ok []
  | (name, spec) :: rest, seen => do
    let here := place ++ [name]
    checkName name here
    match seen.find? (·.1 == spec.value) with
    | some (_, existing) => refuse here (.sameValue name spec.value existing)
    | none =>
      let entry : EnumEntry := ⟨name, spec.value, ← docs spec.brief spec.doc here⟩
      return (name, entry) :: (← entryList place rest ((spec.value, name) :: seen))

def entries (specs : Named EntrySpec) (place : Breadcrumb) : Except Fault (Named EnumEntry) :=
  if specs.isEmpty then refuse place .noEntries
  else (entryList place specs.entries []).map .ofList

def sharedEnum (place : Breadcrumb) (name : String) (spec : SharedEnumSpec) :
    Except Fault Enumeration := do
  let here := place ++ [name]
  checkName name here
  let docs ← docs spec.brief spec.doc here
  return ⟨name, true, docs, ← entries spec.entries here⟩

/-- The enumeration of a field. One of its own has the name and the documentation of the field. -/
def fieldEnum (shared : Named Enumeration) (field : String) (docs : Docs) (place : Breadcrumb) :
    Option EnumSpec → Except Fault (Option Enumeration)
  | none => .ok none
  | some (.shared name) =>
    match shared.get? name with
    | some e => .ok (some e)
    | none => refuse (place ++ ["enum"]) (.noSuchEnum name)
  | some (.own specs) => do
    return some ⟨field, false, docs, ← entries specs (place ++ ["enum"])⟩

/-- A field. Without an access of its own it has the one of its register. -/
def field (shared : Named Enumeration) (inherited : List Access) (place : Breadcrumb)
    (name : String) (spec : FieldSpec) : Build Field := do
  let here := place ++ [name]
  liftM (checkName name here)
  let own ← liftM (access spec.access here)
  let docs ← liftM (docs spec.brief spec.doc here)
  let enumeration ← liftM (fieldEnum shared name docs here spec.enumeration)
  let bits ← bits spec.bits here
  return ⟨name, bits, if own.isEmpty then inherited else own, docs, enumeration⟩

def fields (shared : Named Enumeration) (inherited : List Access) (specs : Named FieldSpec)
    (place : Breadcrumb) : Build (Named Field) :=
  table (field shared inherited (place ++ ["fields"])) specs

end RegAtlas.Resolve
