import RegAtlas.RegisterMap

namespace RegAtlas

structure Config where
  formatGuard : Bool
  bitFields : Bool
  dispatchMacros : Bool
  /-- Whether the name of a local enumeration starts with that of its layout. -/
  enumsByLayout : Bool
  /-- What the names in a C header start with, unless it is the name of the map. -/
  lead : Option String
  headers : List String
deriving Repr, DecidableEq

namespace Config

def standard : Config := ⟨true, false, true, true, none, []⟩

instance : Inhabited Config := ⟨standard⟩

/-- Options to be set over others. Headers are added to those that are there. -/
structure Overlay where
  formatGuard : Option Bool
  bitFields : Option Bool
  dispatchMacros : Option Bool
  enumsByLayout : Option Bool
  lead : Option String
  headers : List String
deriving Repr, DecidableEq

def Overlay.none : Overlay := ⟨.none, .none, .none, .none, .none, []⟩

def overlay (c : Config) (o : Overlay) : Config where
  formatGuard := o.formatGuard.getD c.formatGuard
  bitFields := o.bitFields.getD c.bitFields
  dispatchMacros := o.dispatchMacros.getD c.dispatchMacros
  enumsByLayout := o.enumsByLayout.getD c.enumsByLayout
  lead := o.lead <|> c.lead
  headers := c.headers ++ o.headers

end Config

end RegAtlas
