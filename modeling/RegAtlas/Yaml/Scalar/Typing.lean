import RegAtlas.Document.Node
import RegAtlas.Numeral
import RegAtlas.Yaml.Token.Basic

namespace RegAtlas.Yaml

def isNullText (cs : List Char) : Bool :=
  ["~", "null", "Null", "NULL"].contains (String.ofList cs)

def boolOf? (cs : List Char) : Option Bool :=
  match String.ofList cs with
  | "true" | "True" | "TRUE" => some true
  | "false" | "False" | "FALSE" => some false
  | _ => none

/-- Several digits of which the first is zero, perhaps with a sign, are no number. -/
def hasLeadingZero (cs : List Char) : Bool :=
  match cs with
  | '-' :: '0' :: ds | '+' :: '0' :: ds | '0' :: ds => !ds.isEmpty && ds.all Char.isDigit
  | _ => false

def base? : Char → Option Nat
  | 'x' => some 16
  | 'o' => some 8
  | 'b' => some 2
  | _ => none

def markedNumber? : List Char → Option Nat
  | '0' :: m :: ds => (base? m).bind fun base => Numeral.read? base ds
  | _ => none

def natOf? (cs : List Char) : Option Nat :=
  let ds := match cs with
    | '+' :: ds => ds
    | ds => ds
  if hasLeadingZero cs then markedNumber? ds
  else markedNumber? ds <|> Numeral.read? 10 ds

def negatedOf? : List Char → Option Nat
  | '-' :: ds =>
    if hasLeadingZero ds then markedNumber? ds
    else markedNumber? ds <|> Numeral.read? 10 ds
  | _ => none

/-- An integer of at most 128 bits. -/
def integerOf? (cs : List Char) : Option Value :=
  match natOf? cs, negatedOf? cs with
  | some n, _ => if n < 1 <<< 128 then some (.nat n) else none
  | none, some n => if n ≤ 1 <<< 127 then some (.negative (-n)) else none
  | none, none => none

structure DecimalText where
  whole : List Char
  fraction : List Char
  exponent : Int

def exponentOf? : List Char → Option Int
  | [] => some 0
  | e :: cs =>
    if e == 'e' || e == 'E' then
      match cs with
      | '-' :: ds => (Numeral.read? 10 ds).map fun n => -(n : Int)
      | cs => (Numeral.readPlus? 10 cs).map Int.ofNat
    else none

def decimalOf? (cs : List Char) : Option DecimalText :=
  let (whole, rest) := cs.span Char.isDigit
  let (fraction, rest) := match rest with
    | '.' :: rest => rest.span Char.isDigit
    | rest => ([], rest)
  if whole.isEmpty && fraction.isEmpty then none
  else (exponentOf? rest).map (⟨whole, fraction, ·⟩)

/-- Whether the nearest number of 64 bits is finite. The first that is not lies halfway between the
largest of them and the next power of two. -/
def DecimalText.isFinite (d : DecimalText) : Bool :=
  let digits := (d.whole ++ d.fraction).dropWhile (· == '0')
  let shift := d.exponent - d.fraction.length
  let magnitude := shift + digits.length
  if digits.isEmpty || magnitude < 300 then true
  else if 310 < magnitude then false
  else
    let mantissa := (Numeral.read? 10 digits).getD 0
    let limit := (1 <<< 1024) - (1 <<< 970)
    if 0 ≤ shift then mantissa * Nat.pow 10 shift.toNat < limit
    else mantissa < limit * Nat.pow 10 (-shift).toNat

def isInfinityText (s : String) : Bool := s == ".inf" || s == ".Inf" || s == ".INF"

def isRealText (cs : List Char) : Bool :=
  let unsigned := match cs with
    | '+' :: cs | '-' :: cs => cs
    | cs => cs
  isInfinityText (String.ofList unsigned) ||
    [".nan", ".NaN", ".NAN"].contains (String.ofList cs) ||
    (decimalOf? unsigned).any DecimalText.isFinite

def integerOrReal? (cs : List Char) : Option Value :=
  integerOf? cs <|>
    if !hasLeadingZero cs && isRealText cs then some (.real (String.ofList cs)) else none

/-- What a scalar without a tag is if it stands without quotes. -/
def plainValue (cs : List Char) : Value :=
  if cs.isEmpty || isNullText cs then .null
  else
    ((boolOf? cs).map Value.bool <|> integerOrReal? cs).getD (.text (String.ofList cs))

def taggedType? (tag : String) : Option ScalarType :=
  match tag with
  | "tag:yaml.org,2002:null" => some .null
  | "tag:yaml.org,2002:bool" => some .bool
  | "tag:yaml.org,2002:int" => some .integer
  | "tag:yaml.org,2002:float" => some .real
  | _ => none

def valueAs? (type : ScalarType) (cs : List Char) : Option Value :=
  match type with
  | .null => if isNullText cs then some .null else none
  | .bool => (boolOf? cs).map .bool
  | .integer => integerOf? cs
  | .real => if isRealText cs then some (.real (String.ofList cs)) else none

def scalarValue (tag : Option String) (style : Style) (cs : List Char) : Value :=
  match tag with
  | none => if style == .plain then plainValue cs else .text (String.ofList cs)
  | some tag =>
    match taggedType? tag with
    | some type => (valueAs? type cs).getD (.misfit type)
    | none =>
      if tag.startsWith "!" && style == .plain then plainValue cs else .text (String.ofList cs)

/-- The number that a reader finds who wants one: quotes hide it. -/
def scalarNumber? (tag : Option String) (style : Style) (cs : List Char) : Option Nat :=
  if style == .plain || (style == .literal && tag.bind taggedType? == some .integer) then
    (natOf? cs).filter (· < 1 <<< 64)
  else none

/-- A scalar as a node. A tag of an application's own stays around it. -/
def scalarNode (tag : Option String) (style : Style) (text : String) : Node :=
  let cs := text.toList
  let leaf := Node.leaf (scalarValue tag style cs)
    (some ⟨text, scalarNumber? tag style cs, style == .plain⟩)
  if tag.any (·.startsWith "!") then .tagged leaf else leaf

end RegAtlas.Yaml
