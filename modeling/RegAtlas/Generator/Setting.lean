import RegAtlas.BitError
import RegAtlas.Config.Basic
import RegAtlas.Dump.Basic

namespace RegAtlas

structure Setting where
  inputName : Option String
  outputName : Option String
  config : Config
  dump : Option Dump
deriving Repr, DecidableEq

namespace Setting

def ofConfig (c : Config) : Setting := ⟨none, none, c, none⟩

instance : Inhabited Setting := ⟨ofConfig .standard⟩

end Setting

inductive GenerateError where
  | noType (width : Nat)
  | bit (error : BitError)
  | noDump (generator : String)
deriving Repr, DecidableEq

def GenerateError.message : GenerateError → String
  | noType width => s!"Cannot represent a {width}-bit wide value as a C type"
  | bit error => error.message
  | noDump generator => s!"{generator} requires a register dump"

end RegAtlas
