import RegAtlas.Config.Basic
import RegAtlas.Journal

namespace RegAtlas.CommandLine

structure GenRequest where
  input : String
  output : String
  generator : String
  dump : Option String
  config : Option String
  overlay : Config.Overlay
deriving Repr, DecidableEq

inductive Command where
  | gen (request : GenRequest)
  | validate (input : String)
  | list
deriving Repr, DecidableEq

/-- A command, and the least urgent level of what is reported while it runs. -/
structure Invocation where
  level : Level
  command : Command
deriving Repr, DecidableEq

inductive Topic where
  | program
  | gen
  | validate
  | list
  | help
deriving Repr, DecidableEq

end RegAtlas.CommandLine
