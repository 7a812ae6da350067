import RegAtlas.Docs
import RegAtlas.Field
import RegAtlas.Journal
import RegAtlas.Listing.Basic

namespace RegAtlas.Resolve

abbrev Build (α : Type) := Logged Fault α

def refuse {α : Type} (place : Breadcrumb) (cause : Cause) : Except Fault α :=
  .error (.located place cause)

def isNameStart (c : Char) : Bool := c.isAlpha || c == '_'

def isNameRest (c : Char) : Bool := c.isAlphanum || c == '_'

def isIdentifier (name : String) : Bool :=
  match name.toList with
  | [] => false
  | c :: cs => isNameStart c && cs.all isNameRest

def checkName (name : String) (place : Breadcrumb) : Except Fault Unit :=
  if isIdentifier name then .ok () else refuse place (.notIdentifier name)

def checkWidth (width : Nat) (place : Breadcrumb) : Except Fault Nat :=
  if 1 ≤ width ∧ width ≤ wordSize then .ok width else refuse place (.widthOutOfRange width)

def width (given default : Option Nat) (place : Breadcrumb) : Except Fault Nat :=
  match given.or default with
  | some w => checkWidth w (place ++ ["bitwidth"])
  | none => refuse (place ++ ["bitwidth"]) .noWidth

def briefFlaw? (brief : String) : Option Cause :=
  if Text.allBlank brief.toList then some .blankBrief
  else if 1 < (linesOf (trimmedEnd brief)).length then some .longBrief
  else none

/-- A brief has text on one line, and a body has text. Blanks around them are dropped, except for
those that indent the body. -/
def docs (brief doc : Option String) (place : Breadcrumb) : Except Fault Docs :=
  match brief.bind briefFlaw? with
  | some cause => refuse (place ++ ["brief"]) cause
  | none =>
    if doc.any fun d => Text.allBlank d.toList then refuse (place ++ ["doc"]) .blankBody
    else .ok ⟨brief.map trimmed, doc.map trimmedEnd⟩

def accessMode? (mode : String) : Option (List Access) :=
  match String.ofList ((Text.trim mode.toList).map Char.toLower) with
  | "r" => some [.read]
  | "w" => some [.write]
  | "rw" | "wr" => some [.read, .write]
  | _ => none

def accessModes : Listing.AccessSpec → List String
  | .single mode => [mode]
  | .list modes => modes

/-- The accesses of all modes together, each once and in the order in which they occur first. -/
def addAccesses (place : Breadcrumb) : List String → List Access → Except Fault (List Access)
  | [], found => .ok found
  | mode :: modes, found =>
    match accessMode? mode with
    | some more => addAccesses place modes (found ++ more.filter (!found.contains ·))
    | none => refuse (place ++ ["access"]) (.unknownAccess mode)

def access (spec : Option Listing.AccessSpec) (place : Breadcrumb) : Except Fault (List Access) :=
  match spec with
  | none => .ok []
  | some spec => addAccesses place (accessModes spec) []

end RegAtlas.Resolve
