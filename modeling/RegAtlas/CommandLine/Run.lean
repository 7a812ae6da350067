import RegAtlas.Build
import RegAtlas.CommandLine.Command
import RegAtlas.Config.Reader
import RegAtlas.Dump.Reader
import RegAtlas.FilePath
import RegAtlas.Generator.Basic
import RegAtlas.Listing.Text
import RegAtlas.Text.Columns

namespace RegAtlas.CommandLine

inductive RunError where
  | unknownGenerator (name : String)
  | listing (path : String) (fault : Fault)
  | noConfig (path : String) (fault : FileFault)
  | badConfig (path : String)
  | noDump (path : String) (fault : FileFault)
  | badDump (path : String) (error : DumpError)
  | notGenerated (generator : Generator) (error : GenerateError)
  | notPrinted (fault : FileFault)
  | notWritten (path : String) (fault : FileFault)
deriving Repr, DecidableEq

def faultMessages (f : Fault) : List String :=
  match f with
  | .located _ (.bit e) => [f.message, e.message]
  | .located _ _ => [f.message]
  | .file e => [f.message, e.message]

namespace RunError

def messages : RunError → List String
  | unknownGenerator name =>
    let known := ", ".intercalate (Generator.all.map Generator.name)
    [s!"Unknown generator '{name}', available: {known}"]
  | listing path fault => s!"Invalid register listing {path}" :: faultMessages fault
  | noConfig path fault => [s!"Failed to read {path}", fault.message]
  | badConfig path => [s!"in {path}", Config.refusal]
  | noDump path fault => [s!"Failed to read register dump {path}", fault.message]
  | badDump path error => s!"in {path}" :: error.messages
  | notGenerated g error => [s!"Generator {g.name} failed", error.message]
  | notPrinted fault => ["Failed to write to stdout", fault.message]
  | notWritten path fault => [s!"Failed to write {path}", fault.message]

def lines (e : RunError) : List String :=
  match e.messages with
  | [] => []
  | m :: ms => ("Error: " ++ m) :: ms.map ("  caused by: " ++ ·)

end RunError

/-- What a task can ask for. A text is read, written or printed as a whole or not at all. -/
structure Surroundings (μ : Type → Type) where
  read : String → μ (Except FileFault String)
  write : String → String → μ (Except FileFault Unit)
  print : String → μ (Except FileFault Unit)
  tell : List Event → μ Unit

abbrev Task (μ : Type → Type) (α : Type) := ExceptT RunError μ α

abbrev Run (α : Type) := Logged RunError α

namespace Surroundings

variable {μ : Type → Type} [Monad μ] {α : Type} (env : Surroundings μ)

def ask (request : μ (Except FileFault α)) (refusal : FileFault → RunError) : Task μ α :=
  ExceptT.mk do
    let answer ← request
    return answer.mapError refusal

/-- A computation without files. What it reports is told, also if it fails. -/
def complete (x : Run α) : Task μ α :=
  ExceptT.mk do
    env.tell x.events
    return x.result

def loadMap (path : String) : Task μ RegisterMap := do
  env.complete (Logged.report (.loading path))
  let text ← ask (env.read path) fun fault => .listing path (.file fault)
  env.complete do
    let l ← ((Listing.ofText path (FilePath.format path) text).mapError (.listing path) :
      Except RunError Listing)
    l.build.mapError (.listing path)

def loadConfig (path : String) : Task μ Config := do
  let text ← ask (env.read path) (.noConfig path)
  ((Config.ofText? text).elim (.error (.badConfig path)) .ok : Except RunError Config)

def loadDump (path : String) : Task μ Dump := do
  let text ← ask (env.read path) (.noDump path)
  ((Dump.ofText (FilePath.format path) text).mapError (.badDump path) : Except RunError Dump)

end Surroundings

namespace GenRequest

variable {μ : Type → Type} [Monad μ] (r : GenRequest) (env : Surroundings μ)

def printsOutput : Bool := r.output == "-"

def outputName : Option String := if r.printsOutput then none else FilePath.fileName? r.output

def loadConfig : Task μ Config :=
  match r.config with
  | none => return .standard
  | some path => env.loadConfig path

def loadDump : Task μ (Option Dump) :=
  match r.dump with
  | none => return none
  | some path => some <$> env.loadDump path

def setting (c : Config) (d : Option Dump) : Setting :=
  ⟨FilePath.fileName? r.input, r.outputName, c.overlay r.overlay, d⟩

def text : Task μ String := do
  let g ← ((Generator.named? r.generator).elim (.error (.unknownGenerator r.generator)) .ok :
    Except RunError Generator)
  let m ← env.loadMap r.input
  let c ← r.loadConfig env
  let d ← r.loadDump env
  env.complete do
    Logged.report (.running g.name r.input)
    (g.generate m (r.setting c d)).mapError (.notGenerated g)

def deliver (text : String) : Task μ Unit := do
  if r.printsOutput then
    Surroundings.ask (env.print text) .notPrinted
  else
    Surroundings.ask (env.write r.output text) (.notWritten r.output)
    env.complete (Logged.report (.wrote r.output))

def perform : Task μ Unit := do
  let text ← r.text env
  r.deliver env text

end GenRequest

def summary (path : String) (m : RegisterMap) : String :=
  s!"{path}: map {m.name} is valid ({m.registers.size} registers, " ++
    s!"{m.blocks.size} block templates, {m.enums.size} shared enums)"

def generatorLines : List String :=
  Columns.lines (Generator.all.map fun g => [g.name, g.description]) "" "  "

def Command.perform {μ : Type → Type} [Monad μ] (c : Command) (env : Surroundings μ) :
    Task μ Unit := do
  match c with
  | gen request => request.perform env
  | validate input =>
    let m ← env.loadMap input
    Surroundings.ask (env.print (unlines [summary input m])) .notPrinted
  | list => Surroundings.ask (env.print (unlines generatorLines)) .notPrinted

def shows (level : Level) (e : Event) : Bool := e.level.rank ≤ level.rank

end RegAtlas.CommandLine
