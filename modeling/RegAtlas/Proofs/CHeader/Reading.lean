import RegAtlas.Proofs.Text

namespace RegAtlas.CHeader

/-- The text with each backslash at the end of a line dropped, together with the end of the line. -/
def spliced : List Char → List Char
  | '\\' :: '\n' :: cs => spliced cs
  | c :: cs => c :: spliced cs
  | [] => []

/-- What has been read right before. Behind `slash` a comment may start, and behind `star` it may
end. -/
inductive Mode where
  | code
  | slash
  | lineComment
  | blockComment
  | star
  | literal (quote : Char)
  | escape (quote : Char)
deriving DecidableEq

namespace Mode

def nextInCode (c : Char) : Mode × List Char :=
  if c = '/' then (slash, [])
  else if c = '"' ∨ c = '\'' then (literal c, [c])
  else (code, [c])

/-- What reading a character leads to, with what is left of the text read so far. -/
def next : Mode → Char → Mode × List Char
  | code, c => nextInCode c
  | slash, c =>
    if c = '/' then (lineComment, [])
    else if c = '*' then (blockComment, [])
    else ((nextInCode c).1, '/' :: (nextInCode c).2)
  | lineComment, c => if c = '\n' then (code, [' ', '\n']) else (lineComment, [])
  | blockComment, c => if c = '*' then (star, []) else (blockComment, [])
  | star, c =>
    if c = '/' then (code, [' '])
    else if c = '*' then (star, [])
    else (blockComment, [])
  | literal quote, c =>
    if c = quote ∨ c = '\n' then (code, [c])
    else if c = '\\' then (escape quote, [c])
    else (literal quote, [c])
  | escape quote, c => (literal quote, [c])

def rest : Mode → List Char
  | slash => ['/']
  | _ => []

end Mode

def read (p : Mode) : List Char → Mode × List Char
  | [] => (p, [])
  | c :: cs =>
    let r := read (p.next c).1 cs
    (r.1, (p.next c).2 ++ r.2)

def filledLines (cs : List Char) : List (List Char) :=
  (Text.pieces cs).filter fun l => l.any (· != ' ')

/-- The lines that are left of a text without comments. They say which tokens and directives the
text consists of. -/
def codeLines (text : String) : List (List Char) :=
  let r := read .code (spliced text.toList)
  filledLines (r.2 ++ r.1.rest)

section Text

variable {p q : Mode} {xs ys cs : List Char} {c : Char} {ls ls' : List String}

theorem spliced_cons (h : c = '\\' → cs.head? ≠ some '\n') :
    spliced (c :: cs) = c :: spliced cs := by
  rw [spliced]
  rintro cs rfl rfl
  exact h rfl rfl

theorem spliced_cons_cons {d : Char} (h : c = '\\' → d ≠ '\n') (cs : List Char) :
    spliced (c :: d :: cs) = c :: spliced (d :: cs) :=
  spliced_cons (by simpa using h)

/-- The end of a line stays, unless a backslash before it goes with it. What stands behind has no
part in which of the two it is. -/
theorem spliced_newline (xs : List Char) :
    (∀ ys, spliced (xs ++ '\n' :: ys) = spliced xs ++ '\n' :: spliced ys) ∨
      ∃ zs, spliced xs = zs ++ ['\\'] ∧ ∀ ys, spliced (xs ++ '\n' :: ys) = zs ++ spliced ys := by
  fun_induction spliced xs with
  | case1 cs ih => simpa only [List.cons_append, spliced] using ih
  | case2 c cs hne ih =>
    cases cs with
    | nil =>
      by_cases hc : c = '\\'
      · subst hc
        exact .inr ⟨[], rfl, fun _ => rfl⟩
      · refine .inl fun ys => ?_
        rw [List.singleton_append, spliced_cons_cons fun h => absurd h hc]
        rfl
    | cons d cs =>
      have hhead (ys : List Char) : spliced (c :: d :: (cs ++ '\n' :: ys)) =
          c :: spliced (d :: (cs ++ '\n' :: ys)) :=
        spliced_cons_cons (fun hc hd => hne cs hc (hd ▸ rfl)) _
      simp only [List.cons_append, hhead] at ih ⊢
      rcases ih with hstays | ⟨zs, hzs, hgoes⟩
      · exact .inl fun ys => by rw [hstays]
      · exact .inr ⟨c :: zs, by rw [hzs, List.cons_append], fun ys => by
          rw [hgoes, List.cons_append]⟩
  | case3 => exact .inl fun _ => rfl

theorem spliced_append (xs ys : List Char) :
    spliced (xs ++ '\n' :: ys) = spliced (xs ++ ['\n']) ++ spliced ys := by
  obtain hstays | ⟨zs, -, hgoes⟩ := spliced_newline xs
  · rw [hstays, hstays, List.append_assoc]
    rfl
  · rw [hgoes, hgoes, spliced, List.append_nil]

theorem read_append (p : Mode) (xs ys : List Char) :
    read p (xs ++ ys) =
      ((read (read p xs).1 ys).1, (read p xs).2 ++ (read (read p xs).1 ys).2) := by
  induction xs generalizing p with
  | nil => rfl
  | cons c xs ih => simp [read, ih, List.append_assoc]

theorem read_skip (h : p.next c = (q, [])) : read p (c :: cs) = read q cs := by
  rw [read, h]
  rfl

theorem spliced_unlines_cons (l : String) (ls : List String) :
    spliced (unlines (l :: ls)).toList =
      spliced (l.toList ++ ['\n']) ++ spliced (unlines ls).toList := by
  rw [toList_unlines, List.flatMap_cons, List.append_assoc, List.singleton_append, spliced_append,
    ← toList_unlines]

theorem spliced_unlines_append (ls ls' : List String) :
    spliced (unlines (ls ++ ls')).toList =
      spliced (unlines ls).toList ++ spliced (unlines ls').toList := by
  induction ls with
  | nil => rfl
  | cons l ls ih =>
    rw [List.cons_append, spliced_unlines_cons, spliced_unlines_cons, ih, List.append_assoc]

end Text

/-- There is nothing on the last line. -/
def AtLineStart (cs : List Char) : Prop := cs = [] ∨ ∃ xs, cs = xs ++ ['\n']

theorem filledLines_append {xs ys : List Char} (h : AtLineStart xs) :
    filledLines (xs ++ ys) = filledLines xs ++ filledLines ys := by
  obtain rfl | ⟨xs, rfl⟩ := h
  · rfl
  · rw [List.append_assoc, List.singleton_append]
    simp [filledLines, Text.pieces_append, Text.pieces]

theorem AtLineStart.append {xs ys : List Char} (h : AtLineStart xs) (h' : AtLineStart ys) :
    AtLineStart (xs ++ ys) := by
  obtain rfl | ⟨ys, rfl⟩ := h'
  · rwa [List.append_nil]
  · exact .inr ⟨xs ++ ys, (List.append_assoc _ _ _).symm⟩

/-- Read behind `p`, the lines end behind `q`, and what is left of them is this code. -/
def Reads (p : Mode) (ls : List String) (q : Mode) (code : List (List Char)) : Prop :=
  ∃ out, read p (spliced (unlines ls).toList) = (q, out) ∧ AtLineStart out ∧ filledLines out = code

namespace Reads

variable {p q r : Mode} {ls ls' : List String} {code code' : List (List Char)}

theorem nil : Reads p [] p [] := ⟨[], rfl, .inl rfl, rfl⟩

theorem append (h : Reads p ls q code) (h' : Reads q ls' r code') :
    Reads p (ls ++ ls') r (code ++ code') := by
  obtain ⟨out, hread, hstart, rfl⟩ := h
  obtain ⟨out', hread', hstart', rfl⟩ := h'
  refine ⟨out ++ out', ?_, hstart.append hstart', filledLines_append hstart⟩
  rw [spliced_unlines_append, read_append, hread]
  dsimp only
  rw [hread']

theorem codeLines_eq (h : Reads .code ls q code) (hq : q.rest = []) :
    codeLines (unlines ls) = code := by
  obtain ⟨out, hread, -, hcode⟩ := h
  rw [codeLines, hread]
  dsimp only
  rw [hq, List.append_nil, hcode]

end Reads

/-- From where `P` holds, both lists of lines are read to where `Q` holds, and the same code is left
of them. -/
def Agree (P : Mode → Prop) (ls ls' : List String) (Q : Mode → Prop) : Prop :=
  ∀ p p', P p → P p' → ∃ q q' code, Q q ∧ Q q' ∧ Reads p ls q code ∧ Reads p' ls' q' code

namespace Agree

variable {P Q R : Mode → Prop} {ls ls' ks ks' : List String}

theorem nil : Agree P [] [] P := fun p p' hp hp' => ⟨p, p', [], hp, hp', .nil, .nil⟩

theorem append (h : Agree P ls ls' Q) (h' : Agree Q ks ks' R) :
    Agree P (ls ++ ks) (ls' ++ ks') R := by
  intro p p' hp hp'
  obtain ⟨q, q', code, hq, hq', hreads, hreads'⟩ := h p p' hp hp'
  obtain ⟨r, r', more, hr, hr', hreads₂, hreads₂'⟩ := h' q q' hq hq'
  exact ⟨r, r', code ++ more, hr, hr', hreads.append hreads₂, hreads'.append hreads₂'⟩

theorem flatMap {α : Type} {f g : α → List String} {as : List α}
    (h : ∀ a ∈ as, Agree P (f a) (g a) P) : Agree P (as.flatMap f) (as.flatMap g) P := by
  induction as with
  | nil => exact nil
  | cons a as ih =>
    obtain ⟨ha, has⟩ := List.forall_mem_cons.1 h
    exact ha.append (ih has)

theorem mono {P' Q' : Mode → Prop} (h : Agree P ls ls' Q) (hP : ∀ p, P' p → P p)
    (hQ : ∀ q, Q q → Q' q) : Agree P' ls ls' Q' := by
  intro p p' hp hp'
  obtain ⟨q, q', code, hq, hq', hreads⟩ := h p p' (hP p hp) (hP p' hp')
  exact ⟨q, q', code, hQ q hq, hQ q' hq', hreads⟩

theorem codeLines_eq (h : Agree (· = .code) ls ls' Q) (hQ : ∀ q, Q q → q.rest = []) :
    codeLines (unlines ls) = codeLines (unlines ls') := by
  obtain ⟨q, q', code, hq, hq', hreads, hreads'⟩ := h .code .code rfl rfl
  rw [hreads.codeLines_eq (hQ q hq), hreads'.codeLines_eq (hQ q' hq')]

end Agree

end RegAtlas.CHeader
