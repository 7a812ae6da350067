import RegAtlas.CommandLine.Arguments
import RegAtlas.CommandLine.Help
import RegAtlas.CommandLine.Run

namespace RegAtlas.CommandLine

/-- The code for a directory in the place of a file may come with either sign. -/
def fileFault : IO.Error → FileFault
  | .noFileOrDirectory _ _ _ => .notFound
  | .inappropriateType _ code _ =>
    if code = 21 ∨ code = 0 - 21 then .isDirectory else .notDirectory
  | .permissionDenied _ _ _ => .denied
  | e => .failed e.toString

def readText (path : String) : IO (Except FileFault String) := do
  try
    let bytes ← IO.FS.readBinFile path
    return (String.fromUTF8? bytes).elim (.error .notText) .ok
  catch e => return .error (fileFault e)

def writeText (path text : String) : IO (Except FileFault Unit) := do
  try
    IO.FS.writeFile path text
    return .ok ()
  catch e => return .error (fileFault e)

def printText (text : String) : IO (Except FileFault Unit) := do
  try
    IO.print text
    return .ok ()
  catch e => return .error (fileFault e)

def tellEvents (level : Level) (es : List Event) : IO Unit :=
  IO.eprint (unlines ((es.filter (shows level)).map Event.line))

def Invocation.perform (i : Invocation) : IO UInt32 := do
  match ← (i.command.perform ⟨readText, writeText, printText, tellEvents i.level⟩).run with
  | .ok () => return 0
  | .error e =>
    IO.eprint (unlines e.lines)
    return 1

end RegAtlas.CommandLine

open RegAtlas RegAtlas.CommandLine

def main (arguments : List String) : IO UInt32 := do
  match parse arguments with
  | .ok i => i.perform
  | .error (.help topic) =>
    IO.print (unlines (helpLines topic))
    return 0
  | .error .version =>
    IO.print (unlines [versionLine])
    return 0
  | .error .refused =>
    IO.eprint (unlines refusalLines)
    return 2
