import RegAtlas.CHeader.Basic
import RegAtlas.CHeader.Name

namespace RegAtlas.CHeader

def paragraph (lines : List String) : List String := if lines.isEmpty then [] else " *" :: lines

def noteLines (note : String) : List String :=
  " * Listing file note:" :: (linesOf note).map fun l => trimmedEnd (" *   " ++ l)

def fileLines (m : RegisterMap) (s : Setting) (generator : String) : List String :=
  let origin := s.inputName.elim "" (" from " ++ ·)
  (s.outputName.map (" * @file " ++ ·)).toList ++
    [" * @brief " ++ m.name,
      " * @note do not edit directly: generated using reggen" ++ origin ++ ".",
      " *", " * Generator: " ++ generator] ++
    paragraph (m.docs.multiLine " * ") ++
    paragraph (m.author.map (" * Listing file author: " ++ ·)).toList ++
    paragraph (m.note.elim [] noteLines)

def opening (m : RegisterMap) (s : Setting) (generator : String) : Header :=
  (if s.config.formatGuard then [.formatOff] else []) ++
    [.fileComment (fileLines m s generator), .guardStart (guardName m s), .blank,
      .systemHeader "stdint.h"] ++
    s.config.headers.map .ownHeader

def closing (m : RegisterMap) (s : Setting) : Header :=
  [.blank, .guardEnd (guardName m s)] ++ if s.config.formatGuard then [.formatOn] else []

end RegAtlas.CHeader
