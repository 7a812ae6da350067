import RegAtlas.Listing.Record

namespace RegAtlas.Listing

def readAlternatives {α : Type} (name : String) (alternatives : Node → Option α) (n : Node) :
    Read α :=
  match n.typed?.bind alternatives with
  | some a => .ok a
  | none => .error (.noAlternative name)

def position? (n : Node) : Option Nat := (readPosition n).toOption

def word? (n : Node) : Option Word := (readWord n).toOption

def text? (n : Node) : Option String := (readText n).toOption

def list? {α : Type} (item? : Node → Option α) : Node → Option (List α)
  | .list ns => ns.mapM item?
  | _ => none

def bitItem? (n : Node) : Option BitItem :=
  (position? n).map .bit <|> (text? n).map .range

/-- The first position and the width of a span. Other keys are passed over. -/
def spanPairs? : List (Node × Node) → Option Nat → Option Nat → Option BitSpec
  | [], some lsb, some width => some (.span lsb width)
  | [], _, _ => none
  | (k, v) :: es, lsb, width =>
    match k with
    | .leaf (.text "lsb_position") none | .leaf (.nat 0) none =>
      if lsb.isSome then none else (position? v).bind fun p => spanPairs? es (some p) width
    | .leaf (.text "width") none | .leaf (.nat 1) none =>
      if width.isSome then none else (position? v).bind fun w => spanPairs? es lsb (some w)
    | .leaf (.text _) none | .leaf (.nat _) none => spanPairs? es lsb width
    | _ => none

def span? : Node → Option BitSpec
  | .map es => spanPairs? es none none
  | _ => none

def bitSpec? (n : Node) : Option BitSpec :=
  (position? n).map .bit <|> (text? n).map .range <|> span? n <|> (list? bitItem? n).map .list

def readBitSpec : Node → Read BitSpec := readAlternatives "BitsSpec" bitSpec?

def readAccess : Node → Read AccessSpec :=
  readAlternatives "AccessSpec" fun n => (text? n).map .single <|> (list? text? n).map .list

/-- A required part that may not have been found yet, and the rest. -/
abbrev Draft (ρ α : Type) := Option ρ × α

namespace Draft

variable {ρ α β : Type}

def found (d : Draft ρ α) (r : ρ) : Draft ρ α := (some r, d.2)

def rest (set : α → β → α) (d : Draft ρ α) (b : β) : Draft ρ α := (d.1, set d.2 b)

def finish (key : String) (build : ρ → α → β) (d : Draft ρ α) : Read β :=
  match d.1 with
  | some r => .ok (build r d.2)
  | none => .error (.missingKey key)

end Draft

def entryShape : Shape (Draft Word EntrySpec) :=
  ⟨"EnumEntry", [
    .plain "val" readWord Draft.found,
    .plain "brief" (readOption readText) (Draft.rest fun d brief => { d with brief := brief }),
    .plain "doc" (readOption readText) (Draft.rest fun d doc => { d with doc := doc })]⟩

def readEntrySpec : Node → Read EntrySpec :=
  entryShape.read (none, ⟨0, none, none⟩)
    (Draft.finish "val" fun value d => { d with value := value })

def readEnum : Node → Read EnumSpec :=
  readAlternatives "FieldEnum" fun n =>
    (text? n).map .shared <|> ((readTable readEntrySpec n).toOption).map .own

def fieldShape : Shape (Draft BitSpec FieldSpec) :=
  ⟨"Field", [
    .plain "bits" readBitSpec Draft.found,
    .plain "access" (readOption readAccess) (Draft.rest fun d mode => { d with access := mode }),
    .plain "brief" (readOption readText) (Draft.rest fun d brief => { d with brief := brief }),
    .plain "doc" (readOption readText) (Draft.rest fun d doc => { d with doc := doc }),
    .plain "enum" (readOption readEnum) (Draft.rest fun d e => { d with enumeration := e })]⟩

def readField : Node → Read FieldSpec :=
  fieldShape.read (none, ⟨.list [], none, none, none, none⟩)
    (Draft.finish "bits" fun bits d => { d with bits := bits })

def readValue : Node → Read ValueSpec :=
  readAlternatives "AlwaysWriteVal" fun n => (word? n).map .single <|> (list? word? n).map .list

def alwaysWriteShape : Shape (Option BitSpec × Option ValueSpec) :=
  ⟨"AlwaysWrite", [
    .plain "bits" readBitSpec fun d bits => (some bits, d.2),
    .plain "val" readValue fun d value => (d.1, some value)]⟩

def readAlwaysWrite : Node → Read AlwaysWriteSpec :=
  alwaysWriteShape.read (none, none) fun
    | (some bits, some value) => .ok ⟨bits, value⟩
    | (none, _) => .error (.missingKey "bits")
    | (_, none) => .error (.missingKey "val")

def readStart : Node → Read StartSpec :=
  readAlternatives "StartAdr" fun n =>
    (word? n).map .single <|> ((readTable readWord n).toOption).map .byId

def rawEntryShape : Shape RawEntry :=
  ⟨"RegisterEntry", [
    .plain "register_block_template" (readOption readText) fun d block => { d with block := block },
    .plain "start_adr" (readOption readStart) fun d start => { d with start := start },
    .plain "replace_str_with_instance_id" (readOption readText)
      fun d replace => { d with replace := replace },
    .plain "fields" (readOption (readTable readField)) fun d fields => { d with fields := fields },
    .plain "adr" (readOption readWord) fun d address => { d with address := address },
    .plain "bitwidth" (readOption readPosition) fun d width => { d with width := width },
    .plain "access" (readOption readAccess) fun d access => { d with access := access },
    .plain "reset_val" (readOption readWord) fun d value => { d with resetValue := value },
    .plain "always_write" (readOption readAlwaysWrite) fun d aw => { d with alwaysWrite := aw },
    .plain "brief" (readOption readText) fun d brief => { d with brief := brief },
    .plain "doc" (readOption readText) fun d doc => { d with doc := doc }]⟩

def RawEntry.empty : RawEntry :=
  ⟨none, none, none, none, none, none, none, none, none, none, none⟩

def readEntry : Node → Read Entry :=
  rawEntryShape.read RawEntry.empty fun e => e.classify.mapError .entry

def templateShape : Shape (Draft Word TemplateSpec) :=
  ⟨"RegisterTemplate", [
    .plain "offset" readWord Draft.found,
    .optional "fields" (readTable readField) (Draft.rest fun d fs => { d with fields := fs }),
    .plain "bitwidth" (readOption readPosition) (Draft.rest fun d n => { d with width := n }),
    .plain "access" (readOption readAccess) (Draft.rest fun d mode => { d with access := mode }),
    .plain "reset_val" (readOption readWord) (Draft.rest fun d w => { d with resetValue := w }),
    .plain "always_write" (readOption readAlwaysWrite)
      (Draft.rest fun d aw => { d with alwaysWrite := aw }),
    .plain "brief" (readOption readText) (Draft.rest fun d brief => { d with brief := brief }),
    .plain "doc" (readOption readText) (Draft.rest fun d doc => { d with doc := doc })]⟩

def readTemplate : Node → Read TemplateSpec :=
  templateShape.read (none, ⟨0, .empty, none, none, none, none, none, none⟩)
    (Draft.finish "offset" fun offset d => { d with offset := offset })

def blockShape : Shape (Draft (Named TemplateSpec) BlockSpec) :=
  ⟨"RegisterBlockTemplate", [
    .plain "registers" (readTable readTemplate) Draft.found,
    .plain "brief" (readOption readText) (Draft.rest fun d brief => { d with brief := brief }),
    .plain "doc" (readOption readText) (Draft.rest fun d doc => { d with doc := doc })]⟩

def readBlock : Node → Read BlockSpec :=
  blockShape.read (none, ⟨.empty, none, none⟩)
    (Draft.finish "registers" fun registers d => { d with registers := registers })

def sharedEnumShape : Shape (Draft (Named EntrySpec) SharedEnumSpec) :=
  ⟨"SharedEnum", [
    .plain "enum" (readTable readEntrySpec) Draft.found,
    .plain "brief" (readOption readText) (Draft.rest fun d brief => { d with brief := brief }),
    .plain "doc" (readOption readText) (Draft.rest fun d doc => { d with doc := doc })]⟩

def readSharedEnum : Node → Read SharedEnumSpec :=
  sharedEnumShape.read (none, ⟨.empty, none, none⟩)
    (Draft.finish "enum" fun entries d => { d with entries := entries })

def shape : Shape (Draft String Listing) :=
  ⟨"RegisterMap", [
    .plain "map_name" readText Draft.found,
    .plain "default_register_bitwidth" (readOption readPosition)
      (Draft.rest fun d width => { d with defaultWidth := width }),
    .plain "brief" (readOption readText) (Draft.rest fun d brief => { d with brief := brief }),
    .plain "doc" (readOption readText) (Draft.rest fun d doc => { d with doc := doc }),
    .plain "author" (readOption readText) (Draft.rest fun d author => { d with author := author }),
    .plain "note" (readOption readText) (Draft.rest fun d note => { d with note := note }),
    .optional "registers" (readTable readEntry)
      (Draft.rest fun d registers => { d with registers := registers }),
    ⟨"enums", some "shared_enums", true, putting (readTable readSharedEnum)
      (Draft.rest fun d enums => { d with enums := enums })⟩,
    .optional "register_block_templates" (readTable readBlock)
      (Draft.rest fun d blocks => { d with blocks := blocks })]⟩

def ofNode : Node → Read Listing :=
  shape.read (none, ⟨"", none, none, none, none, none, .empty, .empty, .empty⟩)
    (Draft.finish "map_name" fun name d => { d with name := name })

end RegAtlas.Listing
