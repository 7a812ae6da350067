import RegAtlas.Document.Reader
import RegAtlas.Dump.Basic
import RegAtlas.Fault
import RegAtlas.Listing.Reader

namespace RegAtlas

inductive DumpError where
  | unreadable
  | badAddress (text : String)
  | badValue (address : Word) (text : String)
  | overflow (start : Word)
  | repeated (address : Word)
deriving Repr, DecidableEq

namespace DumpError

def notNumber (text : String) : String := s!"'{text}' is not a number"

def messages : DumpError → List String
  | unreadable => [(Fault.located ["register dump"] .unreadable).message]
  | badAddress text => ["Invalid register dump address", notNumber text]
  | badValue address text =>
    [s!"Invalid register dump value at {Numeral.hex address}", notNumber text]
  | overflow start => [s!"Register dump address overflows after {Numeral.hex start}"]
  | repeated address =>
    [s!"Register dump contains multiple values for address {Numeral.hex address}"]

end DumpError

namespace Dump

/-- Puts in the values from `start` on, of which the next is the one at `i`. -/
def insertValues (start : Word) : Nat → List Written → Dump → Except DumpError Dump
  | _, [], d => .ok d
  | i, v :: vs, d =>
    match Word.ofNat? (start.toNat + i) with
    | none => .error (.overflow start)
    | some address => do
      let value ← v.read.mapError (.badValue address)
      if d.contains address then throw (.repeated address)
      insertValues start (i + 1) vs (d.insert address value)

def insertEntries : List (Written × Recorded) → Dump → Except DumpError Dump
  | [], d => .ok d
  | (key, entry) :: es, d => do
    let start ← key.read.mapError .badAddress
    insertEntries es (← insertValues start 0 entry.values d)

def ofListing (l : Listing) : Except DumpError Dump := insertEntries l.entries .empty

def written? (n : Node) : Option Written :=
  (Listing.word? n).map .number <|> (Listing.text? n).map .text

def recorded? (n : Node) : Option Recorded :=
  (written? n).map .one <|> (Listing.list? written? n).map .many

def listingOfPairs? : List (Node × Node) → Listing → Option Listing
  | [], l => some l
  | (k, v) :: es, l => do
    let key ← k.typed?.bind written?
    let value ← v.typed?.bind recorded?
    listingOfPairs? es (l.insert key value)

def listingOfNode? : Node → Option Listing
  | .map es | .tagged (.map es) => listingOfPairs? es .empty
  | n => if Listing.isBlankLeaf n then some .empty else none

def ofText (f : Format) (text : String) : Except DumpError Dump :=
  match (f.read? .free text).bind listingOfNode? with
  | some l => ofListing l
  | none => .error .unreadable

end Dump

end RegAtlas
