namespace RegAtlas.Text

def isBlank (c : Char) : Bool :=
  let n := c.toNat
  (9 ≤ n && n ≤ 13) || n == 0x20 || n == 0x85 || n == 0xA0 || n == 0x1680 ||
    (0x2000 ≤ n && n ≤ 0x200A) || n == 0x2028 || n == 0x2029 || n == 0x202F || n == 0x205F ||
    n == 0x3000

def trimStart (cs : List Char) : List Char := cs.dropWhile isBlank

def trimEnd (cs : List Char) : List Char := (cs.reverse.dropWhile isBlank).reverse

def trim (cs : List Char) : List Char := trimEnd (trimStart cs)

def allBlank (cs : List Char) : Bool := cs.all isBlank

def lines : List Char → List (List Char)
  | [] => []
  | '\n' :: cs => [] :: lines cs
  | '\r' :: '\n' :: cs => [] :: lines cs
  | c :: cs =>
    match lines cs with
    | [] => [[c]]
    | l :: ls => (c :: l) :: ls

/-- The text cut at every line feed, so that a final line feed gives a final empty piece. -/
def pieces : List Char → List (List Char)
  | [] => [[]]
  | '\n' :: cs => [] :: pieces cs
  | c :: cs =>
    match pieces cs with
    | [] => [[c]]
    | l :: ls => (c :: l) :: ls

end RegAtlas.Text

namespace RegAtlas

def trimmed (s : String) : String := String.ofList (Text.trim s.toList)

def trimmedEnd (s : String) : String := String.ofList (Text.trimEnd s.toList)

def linesOf (s : String) : List String := (Text.lines s.toList).map String.ofList

def unlines (ls : List String) : String := ls.foldr (fun l s => l ++ "\n" ++ s) ""

end RegAtlas
