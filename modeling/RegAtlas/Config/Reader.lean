import RegAtlas.Config.Basic
import RegAtlas.Toml.Reader

namespace RegAtlas.Config

def set? (c : Config) (key : String) (v : Toml.Value) : Option Config :=
  match key, v with
  | "clang_format_guard", .bool b => some { c with formatGuard := b }
  | "registers_as_bitfields", .bool b => some { c with bitFields := b }
  | "generic_funcs", .bool b => some { c with dispatchMacros := b }
  | "field_enum_prefix", .bool b => some { c with enumsByLayout := b }
  | "macro_prefix", .text s => some { c with lead := some s }
  | "add_include", .texts ss => some { c with headers := ss }
  | _, _ => none

def ofEntries? : List (String × Toml.Value) → Config → Option Config
  | [], c => some c
  | (key, v) :: es, c =>
    if es.any (·.1 == key) then none else (c.set? key v).bind (ofEntries? es)

def ofText? (text : String) : Option Config :=
  (Toml.read? text).bind fun es => ofEntries? es .standard

def refusal : String := "Invalid generator configuration"

end RegAtlas.Config
