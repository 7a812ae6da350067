import RegAtlas.CommandLine.Arguments
import RegAtlas.CommandLine.Directory
import RegAtlas.CommandLine.Help
import RegAtlas.CommandLine.World

namespace RegAtlas.CommandLine

def directoryAccess : Access Directory := ⟨Directory.read, Directory.write, fun _ => .ok ()⟩

structure Outcome where
  exit : Nat
  output : String
  reports : List String
  failure : Option RunError
  directory : Directory

def reportLines (level : Level) (journal : List Event) (failure : Option RunError) : List String :=
  (journal.filter (shows level)).map Event.line ++ failure.elim [] RunError.lines

def Invocation.runIn (i : Invocation) (d : Directory) : Outcome :=
  match directoryAccess.run i.command ⟨d, "", []⟩ with
  | (.ok (), w) => ⟨0, w.printed, reportLines i.level w.journal none, none, w.files⟩
  | (.error e, w) => ⟨1, w.printed, reportLines i.level w.journal (some e), some e, w.files⟩

/-- Refused arguments give exit code 2. What is said of them is left to whoever runs the program. -/
def session (d : Directory) (arguments : List String) : Outcome :=
  match parse arguments with
  | .ok i => i.runIn d
  | .error (.help topic) => ⟨0, unlines (helpLines topic), [], none, d⟩
  | .error .version => ⟨0, unlines [versionLine], [], none, d⟩
  | .error .refused => ⟨2, "", [], none, d⟩

end RegAtlas.CommandLine
