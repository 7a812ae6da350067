import RegAtlas.CHeader.Basic
import RegAtlas.Text.Columns

namespace RegAtlas.CHeader

def pageWidth : Nat := 80

/-- The column at which a line of a macro says that it goes on. -/
def continuationColumn : Nat := 99

def bannerLines (title : String) : List String :=
  let rule := Columns.pad "// " '=' pageWidth
  [rule, Columns.pad s!"// ==== {title} " '=' pageWidth, rule]

def ruleLine (title : String) : String := Columns.pad s!"// ---- {title} " '-' pageWidth

def docLines (d : Docs) (lead : String) : List String :=
  match d.brief, d.body with
  | none, none => []
  | some brief, none => [lead ++ "/** @brief " ++ brief ++ " */"]
  | _, _ => (lead ++ "/**") ::
      (d.briefLine (lead ++ " * @brief ") ++ d.bodyLines (lead ++ " * ") ++ [lead ++ " */"])

namespace Define

def row (d : Define) : Columns.Row :=
  ["#define " ++ d.name, "(" ++ d.value.text ++ ")", "//!< " ++ d.comment]

end Define

def Enumerator.lines (e : Enumerator) : List String :=
  docLines e.docs "  " ++ ["  " ++ e.name ++ " = " ++ (Literal.sized e.value).text ++ ","]

def EnumDecl.lines (d : EnumDecl) : List String :=
  docLines d.docs "" ++ ["enum " ++ d.tag ++ " \x7b"] ++ d.entries.flatMap Enumerator.lines ++
    ["\x7d;"]

def Member.lines (m : Member) : List String :=
  let width := m.width.elim "" fun w => " : " ++ toString w
  docLines m.docs "  " ++ ["  " ++ m.type.text ++ " " ++ m.name ++ width ++ ";"]

def StructDecl.lines (d : StructDecl) : List String :=
  docLines d.docs "" ++ ["struct " ++ d.tag ++ " \x7b"] ++ d.members.flatMap Member.lines ++
    ["\x7d;"]

def clearedText (packed : CWord) (mask : Word) : String :=
  "(val & ~(" ++ packed.text ++ ")" ++ (Literal.sized mask).text ++ ")"

def FixedBits.lines (f : FixedBits) (packed : CWord) : List String :=
  ["  // Always write:",
    "  val = (" ++ packed.text ++ ")(" ++ clearedText packed f.mask ++ " | " ++
      (Literal.sized f.value).text ++ ");"]

def PackStep.lines (s : PackStep) (packed : CWord) : List String :=
  ["  // " ++ s.comment ++ ":",
    "  val = (" ++ packed.text ++ ")(" ++ clearedText packed s.mask ++ " | ((" ++ packed.text ++
      ")(r->" ++ s.member ++ " & " ++ (Literal.sized s.unpositioned).text ++ ") << " ++
      (Literal.decimal s.shift).text ++ "));"]

def UnpackStep.line (s : UnpackStep) : String :=
  "  r->" ++ s.member ++ " = (" ++ s.type.text ++ ")((val & " ++ (Literal.sized s.mask).text ++
    ") >> " ++ (Literal.decimal s.shift).text ++ ");"

namespace Function

def signature : Function → String
  | overwrite name tag packed _ _ =>
    packed.text ++ " " ++ name ++ "(const struct " ++ tag ++ " *r, " ++ packed.text ++ " val)"
  | pack name tag packed _ => packed.text ++ " " ++ name ++ "(const struct " ++ tag ++ " *r)"
  | unpackInto name tag packed _ =>
    "void " ++ name ++ "(" ++ packed.text ++ " val, struct " ++ tag ++ " *r)"
  | unpack name tag packed _ => "struct " ++ tag ++ " " ++ name ++ "(" ++ packed.text ++ " val)"

def body : Function → List String
  | overwrite _ _ packed fixed steps =>
    fixed.elim [] (·.lines packed) ++ steps.flatMap (·.lines packed) ++ ["  return val;"]
  | pack _ _ _ through => ["  return " ++ through ++ "(r, 0);"]
  | unpackInto _ _ _ steps => steps.map UnpackStep.line
  | unpack _ tag _ through =>
    ["  struct " ++ tag ++ " r;", "  " ++ through ++ "(val, &r);", "  return r;"]

def lines (f : Function) : List String :=
  ["static inline " ++ f.signature ++ " \x7b"] ++ f.body ++ ["\x7d"]

end Function

namespace Dispatch

def caseLines : List (String × String) → List String
  | [] => []
  | [(tag, function)] => ["    struct " ++ tag ++ " *: " ++ function]
  | (tag, function) :: cs => ("    struct " ++ tag ++ " *: " ++ function ++ ",") :: caseLines cs

def continued (line : String) : String := Columns.pad line ' ' continuationColumn ++ " \\"

def lines (d : Dispatch) : List String :=
  let head := "#define " ++ d.name ++ "(" ++ d.parameters ++ ") _Generic((_struct_ptr),"
  (head :: caseLines d.cases).map continued ++ ["  )(" ++ d.parameters ++ ")"]

end Dispatch

def Item.lines : Item → List String
  | blank => [""]
  | formatOff => ["// clang-format off"]
  | formatOn => ["// clang-format on"]
  | fileComment ls => ["/**"] ++ ls ++ [" */"]
  | guardStart name => ["#ifndef " ++ name, "#define " ++ name]
  | guardEnd name => ["#endif /* " ++ name ++ " */"]
  | systemHeader file => ["#include <" ++ file ++ ">"]
  | ownHeader file => ["#include \"" ++ file ++ "\""]
  | comment line => [line]
  | banner title => bannerLines title
  | rule title => [ruleLine title]
  | brief text => ["/** @brief " ++ text ++ " */"]
  | defines rows => Columns.lines (rows.map fun r => r.elim [] Define.row) "" " "
  | enumeration decl => decl.lines
  | struct decl => decl.lines
  | function f => f.lines
  | dispatch d => d.lines

def Header.lines (h : Header) : List String := h.flatMap Item.lines

end RegAtlas.CHeader
