import RegAtlas.Document.Reader

namespace RegAtlas.FilePath

def parts (path : String) : List String :=
  (path.splitToList (· == '/')).filter fun part => part != "" && part != "."

def fileName? (path : String) : Option String := (parts path).getLast?.filter (· != "..")

/-- What follows the last dot of the file name. A dot that opens the name does not count. -/
def extension? (path : String) : Option String :=
  (fileName? path).bind fun name =>
    let backwards := name.toList.reverse
    match backwards.dropWhile (· != '.') with
    | '.' :: stem => if stem.isEmpty then none
      else some (String.ofList (backwards.takeWhile (· != '.')).reverse)
    | _ => none

/-- Files named `.hjson` or `.json`, in either case, are HJSON, and all others YAML. -/
def format (path : String) : Format :=
  match (extension? path).map (·.map Char.toLower) with
  | some "hjson" | some "json" => .hjson
  | _ => .yaml

end RegAtlas.FilePath
