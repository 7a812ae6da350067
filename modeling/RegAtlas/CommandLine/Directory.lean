import RegAtlas.Fault
import RegAtlas.Table.Basic

namespace RegAtlas

inductive Content where
  | text (s : String)
  | binary
deriving Repr, DecidableEq

/-- Contents by path, the parts of which are joined by slashes. -/
structure Directory where
  files : Named Content
deriving Repr, DecidableEq

namespace Directory

inductive Target where
  | directory
  | file (name : String) (content : Content) (slash : Bool)
  | missing (name : String) (slash : Bool)
  | outside
deriving Repr, DecidableEq

def pathText (parts : List String) : String := "/".intercalate parts

def isDirectory (d : Directory) (parts : List String) : Bool :=
  parts.isEmpty || d.files.keys.any (·.startsWith (pathText parts ++ "/"))

def follow (d : Directory) : List String → List String → Except FileFault Target
  | _, [] => .ok .directory
  | base, part :: parts =>
    if part == "" || part == "." then d.follow base parts
    else if part == ".." then
      if base.isEmpty then
        .ok (if parts.all fun p => p == ".." || p == "." || p == "" then .directory else .outside)
      else d.follow base.dropLast parts
    else
      let here := base ++ [part]
      let name := pathText here
      let slash := !parts.isEmpty
      if d.isDirectory here then d.follow here parts
      else
        match d.files.get? name with
        | some content =>
          if parts.all (· == "") then .ok (.file name content slash) else .error .notDirectory
        | none => if parts.all (· == "") then .ok (.missing name slash) else .error .notFound

def target (d : Directory) (path : String) : Except FileFault Target :=
  if path.isEmpty then .error .notFound
  else if path.startsWith "/" then
    .ok (if path.toList.all (· == '/') then .directory else .outside)
  else d.follow [] (path.splitToList (· == '/'))

def read (d : Directory) (path : String) : Except FileFault String := do
  match ← d.target path with
  | .directory => throw .isDirectory
  | .file _ (.text s) false => return s
  | .file _ .binary false => throw .notText
  | .file _ _ true => throw .notDirectory
  | .missing _ _ | .outside => throw .notFound

def write (d : Directory) (path text : String) : Except FileFault Directory := do
  match ← d.target path with
  | .directory | .file _ _ true | .missing _ true => throw .isDirectory
  | .file name _ false | .missing name false => return ⟨d.files.insert name (.text text)⟩
  | .outside => throw .notFound

def newer (d old : Directory) : List (String × Content) :=
  d.files.entries.filter fun e => old.files.get? e.1 != some e.2

end Directory

end RegAtlas
