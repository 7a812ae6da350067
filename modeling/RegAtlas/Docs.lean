import RegAtlas.Text.Basic

namespace RegAtlas

structure Docs where
  brief : Option String
  body : Option String
deriving Repr, DecidableEq

namespace Docs

def none : Docs := ⟨.none, .none⟩

instance : Inhabited Docs := ⟨none⟩

def isEmpty (d : Docs) : Bool := d.brief.isNone && d.body.isNone

def briefLine (d : Docs) (lead : String) : List String := (d.brief.map (lead ++ ·)).toList

def bodyLines (d : Docs) (lead : String) : List String :=
  d.body.elim [] fun body => (linesOf body).map fun l => trimmedEnd (lead ++ l)

def multiLine (d : Docs) (lead : String) : List String := d.briefLine lead ++ d.bodyLines lead

def twoLine (d : Docs) (lead : String) : List String :=
  d.briefLine lead ++
    (d.body.map fun body => lead ++ " ".intercalate ((linesOf body).map trimmed)).toList

end Docs

end RegAtlas
