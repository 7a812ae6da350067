import RegAtlas.CommandLine.Command

namespace RegAtlas.CommandLine

inductive Stop where
  | help (topic : Topic)
  | version
  | refused
deriving Repr, DecidableEq

structure Flags where
  verbose : Nat
  quiet : Bool
deriving Repr, DecidableEq

def Flags.none : Flags := ⟨0, false⟩

abbrev Step (α : Type) := Except Stop α

namespace Flags

def add (topic : Topic) (f : Flags) : String → Step Flags
  | "verbose" => .ok { f with verbose := f.verbose + 1 }
  | "quiet" => if f.quiet then .error .refused else .ok { f with quiet := true }
  | "help" => .error (.help topic)
  | "version" => if topic = .program then .error .version else .error .refused
  | _ => .error .refused

def longName? : Char → Option String
  | 'v' => some "verbose"
  | 'q' => some "quiet"
  | 'h' => some "help"
  | 'V' => some "version"
  | _ => Option.none

def addLetters (topic : Topic) : List Char → Flags → Step Flags
  | [], f => .ok f
  | c :: cs, f =>
    match longName? c with
    | some name => (f.add topic name).bind (addLetters topic cs)
    | Option.none => .error .refused

def check (f : Flags) : Step Unit := if f.quiet && 0 < f.verbose then .error .refused else .ok ()

/-- What is given behind the subcommand counts before what is given in front of it. -/
def combine (inner outer : Flags) : Flags :=
  ⟨if 0 < inner.verbose then inner.verbose else outer.verbose, inner.quiet || outer.quiet⟩

def level (f : Flags) : Level :=
  if f.quiet then .error
  else
    match f.verbose with
    | 0 => .warn
    | 1 => .info
    | 2 => .debug
    | _ => .trace

end Flags

inductive Shape where
  | longOption (name : String) (value : Option String)
  | letters (cs : List Char)
  | separator
  | plain (text : String)
deriving Repr, DecidableEq

def shapeOf (argument : String) : Shape :=
  match argument.toList with
  | ['-', '-'] => .separator
  | '-' :: '-' :: cs =>
    let name := String.ofList (cs.takeWhile (· != '='))
    match cs.dropWhile (· != '=') with
    | [] => .longOption name none
    | _ :: value => .longOption name (some (String.ofList value))
  | '-' :: c :: cs => .letters (c :: cs)
  | _ => .plain argument

structure Given where
  flags : Flags
  plain : List String
  dump : Option String
  config : Option String
  overlay : Config.Overlay
deriving Repr, DecidableEq

def Given.none : Given := ⟨.none, [], .none, .none, .none⟩

def once {α : Type} (old : Option α) (new : Step α) : Step (Option α) := do
  let value ← new
  if old.isSome then .error .refused else .ok (some value)

def boolArgument : String → Step Bool
  | "true" => .ok true
  | "false" => .ok false
  | _ => .error .refused

def pathArgument (s : String) : Step String := if s.isEmpty then .error .refused else .ok s

def valueOptions : List String := ["dump", "config", "clang-format-guard", "registers-as-bitfields",
  "generic-funcs", "field-enum-prefix", "macro-prefix", "add-include"]

namespace Given

def setOverlay (g : Given) (o : Config.Overlay) : Given := { g with overlay := o }

def setOption (g : Given) (name value : String) : Step Given :=
  let o := g.overlay
  match name with
  | "dump" => (once g.dump (pathArgument value)).map fun v => { g with dump := v }
  | "config" => (once g.config (pathArgument value)).map fun v => { g with config := v }
  | "clang-format-guard" =>
    (once o.formatGuard (boolArgument value)).map fun v => g.setOverlay { o with formatGuard := v }
  | "registers-as-bitfields" =>
    (once o.bitFields (boolArgument value)).map fun v => g.setOverlay { o with bitFields := v }
  | "generic-funcs" =>
    (once o.dispatchMacros (boolArgument value)).map fun v =>
      g.setOverlay { o with dispatchMacros := v }
  | "field-enum-prefix" =>
    (once o.enumsByLayout (boolArgument value)).map fun v =>
      g.setOverlay { o with enumsByLayout := v }
  | "macro-prefix" => (once o.lead (.ok value)).map fun v => g.setOverlay { o with lead := v }
  | "add-include" => .ok (g.setOverlay { o with headers := o.headers ++ [value] })
  | _ => .error .refused

end Given

def plainCount : Topic → Nat × Nat
  | .gen => (3, 2)
  | .validate => (1, 1)
  | _ => (0, 0)

def addPlain (topic : Topic) (g : Given) (s : String) : Step Given :=
  let (count, paths) := plainCount topic
  let i := g.plain.length
  if count ≤ i || (i < paths && s.isEmpty) then .error .refused
  else .ok { g with plain := g.plain ++ [s] }

/-- The arguments behind a subcommand. The value of an option may be the argument after it, unless
that looks like an option itself. -/
def readGiven (topic : Topic) : List String → Given → Step Given
  | [], g => .ok g
  | [a], g =>
    match shapeOf a with
    | .separator => .ok g
    | .plain s => addPlain topic g s
    | .letters cs => (g.flags.addLetters topic cs).map fun f => { g with flags := f }
    | .longOption name value =>
      if topic = .gen && valueOptions.contains name then
        value.elim (.error .refused) (g.setOption name)
      else if value.isSome then .error .refused
      else (g.flags.add topic name).map fun f => { g with flags := f }
  | a :: b :: as, g =>
    match shapeOf a with
    | .separator => (b :: as).foldlM (addPlain topic) g
    | .plain s => (addPlain topic g s).bind (readGiven topic (b :: as))
    | .letters cs => do
      let f ← g.flags.addLetters topic cs
      readGiven topic (b :: as) { g with flags := f }
    | .longOption name value =>
      if topic = .gen && valueOptions.contains name then
        match value, shapeOf b with
        | some v, _ => (g.setOption name v).bind (readGiven topic (b :: as))
        | none, .plain v => (g.setOption name v).bind (readGiven topic as)
        | none, _ => .error .refused
      else if value.isSome then .error .refused
      else do
        let f ← g.flags.add topic name
        readGiven topic (b :: as) { g with flags := f }

def commandOf (topic : Topic) (g : Given) : Step Command :=
  match topic, g.plain with
  | .gen, [input, output, generator] =>
    .ok (.gen ⟨input, output, generator, g.dump, g.config, g.overlay⟩)
  | .validate, [input] => .ok (.validate input)
  | .list, [] => .ok .list
  | _, _ => .error .refused

def topicNamed? : String → Option Topic
  | "gen" => some .gen
  | "validate" => some .validate
  | "list" => some .list
  | "help" => some .help
  | _ => none

def helpOn : List String → Stop
  | [] => .help .program
  | [name] => (topicNamed? name).elim .refused .help
  | _ => .refused

def read : List String → Flags → Step Invocation
  | [], _ => .error .refused
  | a :: as, f =>
    match shapeOf a with
    | .letters cs => (f.addLetters .program cs).bind (read as)
    | .longOption name none => (f.add .program name).bind (read as)
    | .longOption _ (some _) | .separator => .error .refused
    | .plain name =>
      match topicNamed? name with
      | none => .error .refused
      | some .help => .error (helpOn as)
      | some topic => do
        let g ← readGiven topic as .none
        let command ← commandOf topic g
        g.flags.check
        f.check
        return ⟨(g.flags.combine f).level, command⟩

def parse (arguments : List String) : Step Invocation := read arguments .none

end RegAtlas.CommandLine
