import RegAtlas.Document.Reader
import RegAtlas.Fault
import RegAtlas.Listing.Reader

namespace RegAtlas.Listing

open Outline

def required (name : String) (o : Outline := .free) : List String × Bool × Outline :=
  ([name], false, o)

def optional (name : String) (o : Outline := .free) : List String × Bool × Outline :=
  ([name], true, o)

def fieldOutline : Outline :=
  record [required "bits", optional "access", optional "brief", optional "doc", optional "enum"]

def entryOutline : Outline :=
  record [optional "register_block_template", optional "start_adr",
    optional "replace_str_with_instance_id", optional "fields" (table fieldOutline),
    optional "adr", optional "bitwidth", optional "access", optional "reset_val",
    optional "always_write" (record [required "bits", required "val"]), optional "brief",
    optional "doc"]

def templateOutline : Outline :=
  record [required "offset", required "fields" (table fieldOutline), optional "bitwidth",
    optional "access", optional "reset_val",
    optional "always_write" (record [required "bits", required "val"]), optional "brief",
    optional "doc"]

def blockOutline : Outline :=
  record [required "registers" (table templateOutline), optional "brief", optional "doc"]

def sharedEnumOutline : Outline :=
  record [required "enum" (table (record [required "val", optional "brief", optional "doc"])),
    optional "brief", optional "doc"]

/-- Bits, values, access and the enumerations of fields may be written in several ways, so nothing
is known of what is below them. -/
def outline : Outline :=
  record [required "map_name", optional "default_register_bitwidth", optional "brief",
    optional "doc", optional "author", optional "note",
    required "registers" (table entryOutline),
    (["enums", "shared_enums"], false, table sharedEnumOutline),
    required "register_block_templates" (table blockOutline)]

def ofText (place : String) (f : Format) (text : String) : Except Fault Listing :=
  match (f.read? outline text).bind fun n => (ofNode n).toOption with
  | some l => .ok l
  | none => .error (.located [place] .unreadable)

end RegAtlas.Listing
