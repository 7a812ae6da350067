import RegAtlas.Numeral

namespace RegAtlas.Toml

def isBlank (c : Char) : Bool := c == ' ' || c == '\t'

def isPrintable (c : Char) : Bool := c == '\t' || (0x20 ≤ c.toNat && c.toNat != 0x7F)

def skipBlanks (cs : List Char) : List Char := cs.dropWhile isBlank

def newline? : List Char → Option (List Char)
  | '\n' :: cs | '\r' :: '\n' :: cs => some cs
  | _ => none

def codePoint? (count : Nat) (cs : List Char) : Option (Char × List Char) :=
  let ds := cs.take count
  if ds.length < count then none
  else
    (Numeral.read? 16 ds).bind fun n =>
      if n.isValidChar then some (Char.ofNat n, cs.drop count) else none

def escape? : List Char → Option (Char × List Char)
  | 'b' :: cs => some ('\x08', cs)
  | 't' :: cs => some ('\t', cs)
  | 'n' :: cs => some ('\n', cs)
  | 'f' :: cs => some ('\x0c', cs)
  | 'r' :: cs => some ('\r', cs)
  | '"' :: cs => some ('"', cs)
  | '\\' :: cs => some ('\\', cs)
  | 'u' :: cs => codePoint? 4 cs
  | 'U' :: cs => codePoint? 8 cs
  | _ => none

def literalFrom? : List Char → Option (List Char × List Char)
  | [] => none
  | '\'' :: cs => some ([], cs)
  | c :: cs => if isPrintable c then (literalFrom? cs).map fun (t, r) => (c :: t, r) else none

def basicFrom? : Nat → List Char → Option (List Char × List Char)
  | 0, _ | _, [] => none
  | _, '"' :: cs => some ([], cs)
  | fuel + 1, '\\' :: cs => do
    let (c, cs) ← escape? cs
    (basicFrom? fuel cs).map fun (t, r) => (c :: t, r)
  | fuel + 1, c :: cs =>
    if isPrintable c then (basicFrom? fuel cs).map fun (t, r) => (c :: t, r) else none

def skipLines : Nat → List Char → List Char
  | 0, cs => cs
  | fuel + 1, cs =>
    let cs := skipBlanks cs
    match newline? cs with
    | some rest => skipLines fuel rest
    | none => cs

/-- The text behind a backslash at the end of a line, if there is nothing but blanks after it. -/
def joinLines? (cs : List Char) : Option (List Char) :=
  (newline? (skipBlanks cs)).map fun rest => skipLines (rest.length + 1) rest

/-- Goes on after quotes: up to two belong to the text, and three more end it. -/
def closing? (quote : Char) (cs : List Char) : Option (List Char × List Char) :=
  let run := cs.takeWhile (· == quote)
  if run.length < 3 then none
  else
    let kept := min 2 (run.length - 3)
    some (List.replicate kept quote, cs.drop (kept + 3))

def linesFrom? (quote : Char) : Nat → List Char → Option (List Char × List Char)
  | 0, _ | _, [] => none
  | fuel + 1, c :: cs =>
    match newline? (c :: cs) with
    | some rest => (linesFrom? quote fuel rest).map fun (t, r) => ('\n' :: t, r)
    | none =>
      if c == quote then
        match closing? quote (c :: cs) with
        | some closed => some closed
        | none => (linesFrom? quote fuel cs).map fun (t, r) => (c :: t, r)
      else if c == '\\' && quote == '"' then
        match joinLines? cs with
        | some rest => linesFrom? quote fuel rest
        | none => do
          let (c, cs) ← escape? cs
          (linesFrom? quote fuel cs).map fun (t, r) => (c :: t, r)
      else if isPrintable c then (linesFrom? quote fuel cs).map fun (t, r) => (c :: t, r)
      else none

/-- A text over lines whose opening quotes have been read. A break right behind them is dropped. -/
def lines? (quote : Char) (cs : List Char) : Option (List Char × List Char) :=
  let cs := (newline? cs).getD cs
  linesFrom? quote (cs.length + 1) cs

def line? : List Char → Option (List Char × List Char)
  | '"' :: cs => basicFrom? (cs.length + 1) cs
  | '\'' :: cs => literalFrom? cs
  | _ => none

def text? (cs : List Char) : Option (List Char × List Char) :=
  match cs with
  | '"' :: '"' :: '"' :: cs => lines? '"' cs
  | '\'' :: '\'' :: '\'' :: cs => lines? '\'' cs
  | cs => line? cs

end RegAtlas.Toml
