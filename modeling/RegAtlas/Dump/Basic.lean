import RegAtlas.Dump.Number

namespace RegAtlas

abbrev Dump := Table Word Word

namespace Dump

/-- What is written at an address: its value, or the values from there on. -/
inductive Recorded where
  | one (value : Written)
  | many (values : List Written)
deriving Repr, DecidableEq

def Recorded.values : Recorded → List Written
  | one v => [v]
  | many vs => vs

/-- The entries of a dump as they are written. Of several with the same key, written in the same
way, the last one stays. -/
abbrev Listing := Table Written Recorded

end Dump

end RegAtlas
