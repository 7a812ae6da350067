import RegAtlas.CommandLine.Run

namespace RegAtlas.CommandLine

/-- Files of any kind, of which `σ` is the state. An access that is refused leaves it as it is. -/
structure Access (σ : Type) where
  read : σ → String → Except FileFault String
  write : σ → String → String → Except FileFault σ
  print : String → Except FileFault Unit

structure World (σ : Type) where
  files : σ
  printed : String
  journal : List Event

variable {σ : Type}

def World.tell (w : World σ) (es : List Event) : World σ := { w with journal := w.journal ++ es }

def Access.surroundings (a : Access σ) : Surroundings (StateM (World σ)) where
  read path := fun w => (a.read w.files path, w)
  write path text := fun w =>
    match a.write w.files path text with
    | .ok files => (.ok (), { w with files })
    | .error fault => (.error fault, w)
  print text := fun w =>
    match a.print text with
    | .ok () => (.ok (), { w with printed := w.printed ++ text })
    | .error fault => (.error fault, w)
  tell es := fun w => ((), w.tell es)

def Access.run (a : Access σ) (c : Command) (w : World σ) : Except RunError Unit × World σ :=
  (c.perform a.surroundings).run w

end RegAtlas.CommandLine
