import RegAtlas.CHeader.Printer
import RegAtlas.Proofs.CHeader.Reading
import Mathlib.Tactic.MkIffOfInductiveProp

namespace RegAtlas.CHeader

variable {p q : Mode} {cs xs ys lead body : List Char} {c : Char} {l : String}
  {ls ls' : List String}

abbrev InCode (p : Mode) : Prop := p = .code

/-- Where an empty line can stand without a trace. -/
def Calm (p : Mode) : Prop := p = .code ∨ p = .lineComment

/-- A block comment does not end inside the text. -/
def StaysOpen (cs : List Char) : Prop := ¬['*', '/'] <:+: cs

instance : DecidablePred StaysOpen := fun cs => inferInstanceAs (Decidable (¬_ <:+: cs))

section Splicing

theorem spliced_append_left (h : '\\' ∉ xs) (ys : List Char) :
    spliced (xs ++ ys) = xs ++ spliced ys := by
  induction xs with
  | nil => rfl
  | cons c xs ih =>
    rw [List.mem_cons, not_or] at h
    rw [List.cons_append, spliced_cons fun hc => absurd hc.symm h.1, ih h.2, List.cons_append]

theorem spliced_of_not_mem (h : '\\' ∉ cs) : spliced cs = cs := by
  simpa [spliced] using spliced_append_left h []

theorem spliced_line (cs : List Char) : spliced (cs ++ ['\n']) = spliced cs ++ ['\n'] ∨
    spliced cs = spliced (cs ++ ['\n']) ++ ['\\'] := by
  obtain hstays | ⟨zs, hzs, hgoes⟩ := spliced_newline cs
  · exact .inl (hstays [])
  · refine .inr ?_
    rw [hzs, hgoes, spliced, List.append_nil]

end Splicing

namespace StaysOpen

theorem of_infix (h : StaysOpen ys) (hxs : xs <:+: ys) : StaysOpen xs := fun h' => h (h'.trans hxs)

theorem of_no_star (h : '*' ∉ cs) : StaysOpen cs := fun h' => h (h'.subset List.mem_cons_self)

theorem of_no_slash (h : '/' ∉ cs) : StaysOpen cs :=
  fun h' => h (h'.subset (List.mem_cons_of_mem _ List.mem_cons_self))

theorem cons (hc : c ≠ '*') (h : StaysOpen cs) : StaysOpen (c :: cs) := by
  intro h'
  rcases List.infix_cons_iff.1 h' with hstart | hinfix
  · exact hc (List.cons_prefix_cons.1 hstart).1.symm
  · exact h hinfix

theorem append_of_join (hxs : StaysOpen xs) (hys : StaysOpen ys)
    (hjoin : xs.getLast? = some '*' → ys.head? ≠ some '/') : StaysOpen (xs ++ ys) := by
  induction xs with
  | nil => exact hys
  | cons c xs ih =>
    have ih := ih (hxs.of_infix (List.infix_cons List.infix_rfl)) fun hlast => hjoin (by
      cases xs with
      | nil => cases hlast
      | cons d xs => exact hlast)
    intro h'
    rcases List.infix_cons_iff.1 h' with hhere | hlater
    · obtain ⟨rfl, hnext⟩ := List.cons_prefix_cons.1 hhere
      cases xs with
      | nil =>
        obtain ⟨zs, hzs⟩ := hnext
        exact hjoin rfl (congrArg List.head? hzs.symm)
      | cons d xs =>
        obtain ⟨rfl, -⟩ := List.cons_prefix_cons.1 hnext
        exact hxs ⟨[], xs, rfl⟩
    · exact ih hlater

theorem append (hxs : StaysOpen xs) (hys : StaysOpen ys) (hhead : ys.head? ≠ some '/') :
    StaysOpen (xs ++ ys) := hxs.append_of_join hys fun _ => hhead

theorem spliced_line (h : StaysOpen (spliced cs)) : StaysOpen (spliced (cs ++ ['\n'])) := by
  rcases CHeader.spliced_line cs with heq | heq
  · rw [heq]
    exact h.append (of_no_star (by decide)) (by decide)
  · exact h.of_infix ⟨[], ['\\'], by rw [List.nil_append, heq]⟩

end StaysOpen

theorem read_inside (cs : List Char) :
    (StaysOpen cs → ∃ q, (q = .blockComment ∨ q = .star) ∧ read .blockComment cs = (q, [])) ∧
    (StaysOpen ('*' :: cs) → ∃ q, (q = .blockComment ∨ q = .star) ∧ read .star cs = (q, [])) := by
  induction cs with
  | nil => exact ⟨fun _ => ⟨_, .inl rfl, rfl⟩, fun _ => ⟨_, .inr rfl, rfl⟩⟩
  | cons c cs ih =>
    obtain ⟨hblock, hstar⟩ := ih
    have htail (h : StaysOpen (c :: cs)) : StaysOpen cs :=
      h.of_infix (List.infix_cons List.infix_rfl)
    by_cases hc : c = '*'
    · subst hc
      refine ⟨fun h => ?_, fun h => ?_⟩
      · rw [read_skip (q := .star) rfl]
        exact hstar h
      · rw [read_skip (q := .star) rfl]
        exact hstar (h.of_infix (List.infix_cons List.infix_rfl))
    · refine ⟨fun h => ?_, fun h => ?_⟩
      · rw [read_skip (q := .blockComment) (by simp [Mode.next, hc])]
        exact hblock (htail h)
      · have hslash : c ≠ '/' := fun hslash => h ⟨[], cs, by rw [hslash]; rfl⟩
        rw [read_skip (q := .blockComment) (by simp [Mode.next, hc, hslash])]
        exact hblock (htail (h.of_infix (List.infix_cons List.infix_rfl)))

/-- Code in which no comment, literal or joined line can start. -/
def Plain (cs : List Char) : Prop := ∀ c ∈ cs, c ≠ '/' ∧ c ≠ '"' ∧ c ≠ '\'' ∧ c ≠ '\\'

/-- Text on one line in which a comment can start, but none that goes on behind the line. -/
def Starless (cs : List Char) : Prop :=
  ∀ c ∈ cs, c ≠ '*' ∧ c ≠ '"' ∧ c ≠ '\'' ∧ c ≠ '\\' ∧ c ≠ '\n'

instance : DecidablePred Plain := fun cs => List.decidableBAll _ cs

instance : DecidablePred Starless := fun cs => List.decidableBAll _ cs

theorem read_plain (h : Plain cs) : read .code cs = (.code, cs) := by
  induction cs with
  | nil => rfl
  | cons c cs ih =>
    obtain ⟨⟨hslash, hquote, hapostrophe, -⟩, hcs⟩ := List.forall_mem_cons.1 h
    have hnext : Mode.code.next c = (.code, [c]) := by
      simp [Mode.next, Mode.nextInCode, hslash, hquote, hapostrophe]
    rw [read, hnext]
    dsimp only
    rw [ih hcs]
    rfl

def OnLine (p : Mode) : Prop := p = .code ∨ p = .slash ∨ p = .lineComment

theorem read_starless (h : Starless cs) (hp : OnLine p) : OnLine (read p cs).1 := by
  induction cs generalizing p with
  | nil => exact hp
  | cons c cs ih =>
    obtain ⟨⟨hstar, hquote, hapostrophe, -⟩, hcs⟩ := List.forall_mem_cons.1 h
    refine ih hcs ?_
    rcases hp with rfl | rfl | rfl
    · by_cases hslash : c = '/' <;>
        simp [Mode.next, Mode.nextInCode, hslash, hquote, hapostrophe, OnLine]
    · by_cases hslash : c = '/' <;>
        simp [Mode.next, Mode.nextInCode, hslash, hstar, hquote, hapostrophe, OnLine]
    · by_cases hline : c = '\n' <;> simp [Mode.next, hline, OnLine]

theorem OnLine.read_newline (hp : OnLine p) :
    ∃ out, read p ['\n'] = (.code, out) ∧ ∃ xs, out = xs ++ ['\n'] := by
  rcases hp with rfl | rfl | rfl
  · exact ⟨_, rfl, [], rfl⟩
  · exact ⟨_, rfl, ['/'], rfl⟩
  · exact ⟨_, rfl, [' '], rfl⟩

/-- Code is read on behind the line, with or without a comment at its end. -/
def Tidy (l : String) : Prop := Plain l.toList ∨ Starless l.toList

theorem Tidy.no_backslash (h : Tidy l) : '\\' ∉ l.toList := fun hmem =>
  h.elim (fun h => (h _ hmem).2.2.2 rfl) fun h => (h _ hmem).2.2.2.1 rfl

theorem Tidy.onLine (h : Tidy l) : OnLine (read .code l.toList).1 := by
  rcases h with h | h
  · rw [read_plain h]
    exact .inl rfl
  · exact read_starless h (.inl rfl)

theorem Tidy.reads (h : Tidy l) : ∃ code, Reads .code [l] .code code := by
  obtain ⟨out, hread, xs, rfl⟩ := h.onLine.read_newline
  refine ⟨_, (read .code l.toList).2 ++ (xs ++ ['\n']), ?_, ?_, rfl⟩
  · rw [unlines_singleton, spliced_append_left h.no_backslash, read_append]
    change ((read _ ['\n']).1, _ ++ (read _ ['\n']).2) = _
    rw [hread]
  · exact .inr ⟨(read .code l.toList).2 ++ xs, (List.append_assoc _ _ _).symm⟩

theorem reads_of_tidy (h : ∀ l ∈ ls, Tidy l) : ∃ code, Reads .code ls .code code := by
  induction ls with
  | nil => exact ⟨[], .nil⟩
  | cons l ls ih =>
    obtain ⟨hl, hls⟩ := List.forall_mem_cons.1 h
    obtain ⟨code, hcode⟩ := hl.reads
    obtain ⟨more, hmore⟩ := ih hls
    exact ⟨code ++ more, hcode.append hmore⟩

theorem filledLines_spaces (h : ∀ c ∈ cs, c = ' ') : filledLines (cs ++ ['\n']) = [] := by
  have hmem : '\n' ∉ cs := fun hmem => absurd (h _ hmem) (by decide)
  have hany : cs.any (· != ' ') = false := by
    simpa using h
  rw [filledLines, Text.pieces_append, Text.pieces_of_not_mem hmem]
  simp [hany, Text.pieces]

section BlockComment

theorem reads_comment (lead body : List Char) (hls : spliced (unlines ls).toList =
      lead ++ '/' :: '*' :: (body ++ ['*', '/', '\n']))
    (hlead : Plain lead) (hbody : StaysOpen body) :
    Reads .code ls .code (filledLines (lead ++ [' '] ++ ['\n'])) := by
  obtain ⟨q, hq, hread⟩ := (read_inside body).1 hbody
  have hend : read q ['*', '/', '\n'] = (.code, [' ', '\n']) := by
    rcases hq with rfl | rfl <;> rfl
  refine ⟨lead ++ [' '] ++ ['\n'], ?_, .inr ⟨lead ++ [' '], rfl⟩, rfl⟩
  rw [hls, read_append, read_plain hlead]
  dsimp only
  rw [read_skip (q := .slash) rfl, read_skip (q := .blockComment) rfl, read_append, hread]
  dsimp only
  rw [hend, List.append_assoc]
  rfl

theorem reads_comment_alone (lead body : List Char) (hls : spliced (unlines ls).toList =
      lead ++ '/' :: '*' :: (body ++ ['*', '/', '\n']))
    (hlead : ∀ c ∈ lead, c = ' ') (hbody : StaysOpen body) : Reads .code ls .code [] := by
  have hplain : Plain lead := fun c hc => by
    rw [hlead c hc]
    decide
  have hspaces : filledLines (lead ++ [' '] ++ ['\n']) = [] :=
    filledLines_spaces (List.forall_mem_append.2 ⟨hlead, List.forall_mem_singleton.2 rfl⟩)
  rw [← hspaces]
  exact reads_comment lead body hls hplain hbody

/-- A line of a block comment, behind the line that starts the comment. -/
structure Inside (l : String) : Prop where
  stays : StaysOpen (spliced l.toList)
  head : ∀ c ∈ l.toList.head?, c = ' '

theorem Inside.head_ne_slash (h : Inside l) : (spliced (l.toList ++ ['\n'])).head? ≠ some '/' := by
  cases hl : l.toList with
  | nil => decide
  | cons c cs =>
    have hc : c = ' ' := h.head c (by rw [hl]; rfl)
    subst hc
    rw [List.cons_append, spliced_cons fun hc => absurd hc (by decide)]
    exact fun heq => absurd (Option.some.inj heq) (by decide)

theorem staysOpen_unlines (h : ∀ l ∈ ls, Inside l) :
    StaysOpen (spliced (unlines ls).toList) ∧ (spliced (unlines ls).toList).head? ≠ some '/' := by
  induction ls with
  | nil => exact ⟨.of_no_star (by decide), by decide⟩
  | cons l ls ih =>
    obtain ⟨hl, hls⟩ := List.forall_mem_cons.1 h
    obtain ⟨hstays, hhead⟩ := ih hls
    rw [spliced_unlines_cons]
    refine ⟨hl.stays.spliced_line.append hstays hhead, ?_⟩
    have hfirst := hl.head_ne_slash
    rw [List.head?_append]
    cases hc : (spliced (l.toList ++ ['\n'])).head? with
    | none => exact hhead
    | some c => rwa [hc] at hfirst

def Margin (pre : String) : Prop :=
  pre.toList.head? = some ' ' ∧ '/' ∉ pre.toList ∧ '\\' ∉ pre.toList ∧ '\n' ∉ pre.toList ∧
    pre.toList.getLast? ≠ some '*'

instance (pre : String) : Decidable (Margin pre) := inferInstanceAs (Decidable (_ ∧ _))

theorem spliced_of_no_newline (h : '\n' ∉ cs) : spliced cs = cs := by
  induction cs with
  | nil => rfl
  | cons c cs ih =>
    rw [List.mem_cons, not_or] at h
    rw [spliced_cons fun _ hhead => h.2 (List.mem_of_mem_head? hhead), ih h.2]

section Margin

variable {pre text : String} (hpre : Margin pre)
include hpre

theorem Margin.head?_append (text : String) : (pre ++ text).toList.head? = some ' ' := by
  rw [String.toList_append, List.head?_append, hpre.1]
  rfl

theorem Margin.staysOpen (htext : StaysOpen cs) : StaysOpen (pre.toList ++ cs) :=
  (StaysOpen.of_no_slash hpre.2.1).append_of_join htext fun h => absurd h hpre.2.2.2.2

theorem Margin.inside (htext : StaysOpen (spliced text.toList)) : Inside (pre ++ text) := by
  refine ⟨?_, fun c hc => ?_⟩
  · rw [String.toList_append, spliced_append_left hpre.2.2.1]
    exact hpre.staysOpen htext
  · rw [hpre.head?_append] at hc
    exact (Option.some.inj hc).symm

theorem Margin.inside_trimmed (hline : '\n' ∉ text.toList) (htext : StaysOpen text.toList) :
    Inside (trimmedEnd (pre ++ text)) := by
  have hstart := toList_trimmedEnd_isPrefix (pre ++ text)
  refine ⟨?_, fun c hc => ?_⟩
  · have hmem : '\n' ∉ (pre ++ text).toList := by
      rw [String.toList_append, List.mem_append, not_or]
      exact ⟨hpre.2.2.2.1, hline⟩
    rw [spliced_of_no_newline fun h => hmem (hstart.subset h)]
    have hstays := hpre.staysOpen htext
    rw [← String.toList_append] at hstays
    exact hstays.of_infix hstart.isInfix
  · obtain ⟨cs, hcs⟩ := hstart
    have hhead := hpre.head?_append text
    rw [← hcs, List.head?_append, hc] at hhead
    exact Option.some.inj hhead

end Margin

theorem spliced_append_of_head (h : ys.head? ≠ some '\n') :
    spliced (xs ++ ys) = spliced xs ++ spliced ys := by
  fun_induction spliced xs with
  | case1 cs ih => simpa [spliced] using ih
  | case2 c cs hne ih =>
    rw [List.cons_append, spliced_cons, ih, List.cons_append]
    rintro rfl hhead
    cases cs with
    | nil => exact h hhead
    | cons d cs => exact hne cs rfl (congrArg (· :: cs) (Option.some.inj hhead))
  | case3 => rfl

theorem reads_block (lead : String) (hlead : ∀ c ∈ lead.toList, c = ' ')
    (h : ∀ l ∈ ls, Inside l) :
    Reads .code ((lead ++ "/**") :: (ls ++ [lead ++ " */"])) .code [] := by
  obtain ⟨hstays, hhead⟩ := staysOpen_unlines h
  have hspace (c : Char) (hne : c ≠ ' ') : c ∉ lead.toList := fun hmem => hne (hlead c hmem)
  refine reads_comment_alone lead.toList
    ('*' :: '\n' :: (spliced (unlines ls).toList ++ (lead.toList ++ [' ']))) ?_ hlead ?_
  · have hopen : '\\' ∉ (lead ++ "/**").toList ++ ['\n'] := by
      simp [hspace]
    have hclose : '\\' ∉ (lead ++ " */").toList ++ ['\n'] := by
      simp [hspace]
    rw [spliced_unlines_cons, spliced_unlines_append, unlines_singleton, spliced_of_not_mem hopen,
      spliced_of_not_mem hclose]
    simp
  · have hend : StaysOpen (lead.toList ++ [' ']) := .of_no_star (by simp [hspace])
    have hendHead : (lead.toList ++ [' ']).head? ≠ some '/' := fun h => by
      simpa [hspace] using List.mem_of_mem_head? h
    have hstar : StaysOpen ['*'] := .of_no_slash (by decide)
    exact hstar.append ((hstays.append hend hendHead).cons (by decide)) (by simp)

theorem reads_brief {text : String} (lead : String) (hlead : ∀ c ∈ lead.toList, c = ' ')
    (htext : StaysOpen (spliced text.toList)) :
    Reads .code [lead ++ "/** @brief " ++ text ++ " */"] .code [] := by
  have hopen : '\\' ∉ (lead ++ "/** @brief ").toList := by
    have hlead : '\\' ∉ lead.toList := fun hmem => absurd (hlead _ hmem) (by decide)
    simp [hlead]
  have hclose : spliced (" */".toList ++ ['\n']) = " */\n".toList := by decide +kernel
  refine reads_comment_alone lead.toList
    ("* @brief ".toList ++ (spliced text.toList ++ [' '])) ?_ hlead ?_
  · rw [unlines_singleton, String.toList_append, String.toList_append, List.append_assoc,
      List.append_assoc, spliced_append_left hopen, spliced_append_of_head (by decide), hclose]
    simp
  · have hlast : StaysOpen (spliced text.toList ++ [' ']) :=
      htext.append (.of_no_star (by decide)) (by decide)
    exact (StaysOpen.of_no_slash (by decide)).append_of_join hlast fun h => absurd h (by decide)

/-- Documentation that a block comment holds. -/
@[mk_iff]
structure Docs.StayInside (d : Docs) : Prop where
  brief : ∀ b ∈ d.brief, StaysOpen (spliced b.toList)
  body : ∀ b ∈ d.body, StaysOpen b.toList

instance : DecidablePred Docs.StayInside := fun d => decidable_of_iff' _ (Docs.stayInside_iff d)

theorem inside_bodyLines {pre text : String} (hpre : Margin pre) (htext : StaysOpen text.toList) :
    ∀ l ∈ (linesOf text).map fun l => trimmedEnd (pre ++ l), Inside l := by
  refine List.forall_mem_map.2 fun l hl => ?_
  obtain ⟨cs, hcs, rfl⟩ := List.mem_map.1 hl
  obtain ⟨hline, hinfix⟩ := (Text.lines_spec text.toList).2 cs hcs
  rw [← String.toList_ofList (l := cs)] at hline hinfix
  exact hpre.inside_trimmed hline (htext.of_infix hinfix)

namespace Docs.StayInside

variable {d : Docs} (hd : Docs.StayInside d)
include hd

theorem briefLine {pre : String} (hpre : Margin pre) : ∀ l ∈ d.briefLine pre, Inside l := by
  intro l hl
  obtain ⟨b, hb, rfl⟩ := Option.map_eq_some_iff.1 (Option.mem_toList.1 hl)
  exact hpre.inside (hd.brief b hb)

theorem bodyLines {pre : String} (hpre : Margin pre) : ∀ l ∈ d.bodyLines pre, Inside l := by
  unfold RegAtlas.Docs.bodyLines
  cases hbody : d.body with
  | none => exact List.forall_mem_nil _
  | some b => exact inside_bodyLines hpre (hd.body b hbody)

theorem multiLine {pre : String} (hpre : Margin pre) : ∀ l ∈ d.multiLine pre, Inside l :=
  List.forall_mem_append.2 ⟨hd.briefLine hpre, hd.bodyLines hpre⟩

/-- Nothing is left of documentation in front of a declaration. -/
theorem reads_docLines {lead : String} (hlead : lead = "" ∨ lead = "  ") :
    Reads .code (docLines d lead) .code [] := by
  have hspaces : ∀ c ∈ lead.toList, c = ' ' := by
    rcases hlead with rfl | rfl <;> simp
  have hbrief : Margin (lead ++ " * @brief ") := by
    rcases hlead with rfl | rfl <;> decide +kernel
  have hbody : Margin (lead ++ " * ") := by
    rcases hlead with rfl | rfl <;> decide +kernel
  have hblock := reads_block lead hspaces
    (List.forall_mem_append.2 ⟨hd.briefLine hbrief, hd.bodyLines hbody⟩)
  unfold docLines
  split
  · exact .nil
  · next brief hbrief _ => exact reads_brief lead hspaces (hd.brief brief hbrief)
  · exact hblock

end Docs.StayInside

end BlockComment

section LineComment

/-- A line that is a comment from its start. -/
structure LineComment (l : String) : Prop where
  start : ∃ cs, l.toList = '/' :: '/' :: cs
  line : '\n' ∉ l.toList

theorem LineComment.append {pre text : String} (hpre : LineComment pre) (h : '\n' ∉ text.toList) :
    LineComment (pre ++ text) := by
  obtain ⟨⟨cs, hcs⟩, hline⟩ := hpre
  refine ⟨⟨cs ++ text.toList, by rw [String.toList_append, hcs]; rfl⟩, ?_⟩
  rw [String.toList_append, List.mem_append, not_or]
  exact ⟨hline, h⟩

theorem LineComment.trimmed (h : LineComment l) : LineComment (trimmedEnd l) := by
  obtain ⟨⟨cs, hcs⟩, hline⟩ := h
  refine ⟨⟨Text.trimEnd cs, ?_⟩, fun hmem => hline ((toList_trimmedEnd_isPrefix l).subset hmem)⟩
  rw [trimmedEnd, String.toList_ofList, hcs, Text.trimEnd_cons (by decide),
    Text.trimEnd_cons (by decide)]

theorem lineComment_bodyLines {pre : String} (hpre : LineComment pre) (d : Docs) :
    ∀ l ∈ d.bodyLines pre, LineComment l := by
  unfold Docs.bodyLines
  cases d.body with
  | none => exact List.forall_mem_nil _
  | some text =>
    refine List.forall_mem_map.2 fun l hl => ?_
    obtain ⟨cs, hcs, rfl⟩ := List.mem_map.1 hl
    obtain ⟨hline, -⟩ := (Text.lines_spec text.toList).2 cs hcs
    exact (hpre.append (by rwa [String.toList_ofList])).trimmed

theorem read_lineComment (h : '\n' ∉ cs) : read .lineComment cs = (.lineComment, []) := by
  induction cs with
  | nil => rfl
  | cons c cs ih =>
    rw [List.mem_cons, not_or] at h
    rw [read_skip (q := .lineComment) (by simp [Mode.next, Ne.symm h.1]), ih h.2]

theorem Calm.read_slashes (hp : Calm p) (h : '\n' ∉ cs) :
    read p ('/' :: '/' :: cs) = (.lineComment, []) := by
  rcases hp with rfl | rfl
  · rw [read_skip (q := .slash) rfl, read_skip (q := .lineComment) rfl, read_lineComment h]
  · exact read_lineComment (by simpa using h)

theorem spliced_closed (h : '\n' ∉ cs) (hend : cs.getLast? ≠ some '\\') :
    spliced (cs ++ ['\n']) = cs ++ ['\n'] := by
  rcases spliced_line cs with heq | heq
  · rw [heq, spliced_of_no_newline h]
  · rw [spliced_of_no_newline h] at heq
    rw [heq, List.getLast?_append] at hend
    exact absurd rfl hend

theorem spliced_joined (h : '\n' ∉ cs) : spliced (cs ++ ['\\'] ++ ['\n']) = cs := by
  rw [List.append_assoc, spliced_append_of_head (by decide), spliced_of_no_newline h]
  exact List.append_nil cs

theorem LineComment.reads_closed (h : LineComment l) (hend : l.toList.getLast? ≠ some '\\')
    (hp : Calm p) : Reads p [l] .code [] := by
  obtain ⟨⟨cs, hcs⟩, hline⟩ := h
  refine ⟨[' ', '\n'], ?_, .inr ⟨[' '], rfl⟩, by decide⟩
  rw [unlines_singleton, spliced_closed hline hend, read_append, hcs,
    hp.read_slashes fun hmem => hline (by simp [hcs, hmem])]
  rfl

/-- A backslash at the end of the line joins the next line to the comment. -/
theorem LineComment.reads_open (h : LineComment l) (hend : l.toList.getLast? = some '\\')
    (hp : Calm p) : Reads p [l] .lineComment [] := by
  obtain ⟨⟨cs, hcs⟩, hline⟩ := h
  obtain ⟨ds, hds⟩ : ∃ ds, cs = ds ++ ['\\'] := by
    refine List.getLast?_eq_some_iff.1 ?_
    rw [hcs] at hend
    cases cs with
    | nil => cases hend
    | cons c cs => exact hend
  subst hds
  have hmem : '\n' ∉ '/' :: '/' :: ds := fun hmem => hline (by
    rw [hcs]
    exact List.mem_append_left ['\\'] hmem)
  refine ⟨[], ?_, .inl rfl, by decide⟩
  rw [unlines_singleton, hcs]
  change read p (spliced (('/' :: '/' :: ds) ++ ['\\'] ++ ['\n'])) = _
  rw [spliced_joined hmem, hp.read_slashes fun h => hmem (by simp [h])]

theorem reads_joined (hline : '\n' ∉ l.toList) (hend : l.toList.getLast? ≠ some '\\') :
    Reads .lineComment [l] .code [] := by
  refine ⟨[' ', '\n'], ?_, .inr ⟨[' '], rfl⟩, by decide⟩
  rw [unlines_singleton, spliced_closed hline hend, read_append, read_lineComment hline]
  rfl

/-- Nothing is left of the line, and the comment goes on only behind a backslash. -/
theorem LineComment.reads (h : LineComment l) (hp : Calm p) :
    ∃ q, Calm q ∧ (l.toList.getLast? ≠ some '\\' → q = .code) ∧ Reads p [l] q [] := by
  by_cases hend : l.toList.getLast? = some '\\'
  · exact ⟨_, .inr rfl, fun hne => absurd hend hne, h.reads_open hend hp⟩
  · exact ⟨_, .inl rfl, fun _ => rfl, h.reads_closed hend hp⟩

theorem reads_lineComments (h : ∀ l ∈ ls, LineComment l) :
    ∃ q, Calm q ∧ ((∀ l ∈ ls.getLast?, l.toList.getLast? ≠ some '\\') → q = .code) ∧
      Reads .code ls q [] := by
  induction ls using List.reverseRecOn with
  | nil => exact ⟨.code, .inl rfl, fun _ => rfl, .nil⟩
  | append_singleton ls l ih =>
    obtain ⟨hls, hl⟩ := List.forall_mem_append.1 h
    obtain ⟨p, hp, -, hreads⟩ := ih hls
    obtain ⟨q, hq, hcode, hlast⟩ := (List.forall_mem_singleton.1 hl).reads hp
    refine ⟨q, hq, fun hend => hcode (hend l ?_), hreads.append hlast⟩
    rw [List.getLast?_append]
    rfl

end LineComment

section Agree

theorem Agree.of_reads {code : List (List Char)} (h : Reads .code ls .code code)
    (h' : Reads .code ls' .code code) : Agree InCode ls ls' InCode := by
  rintro p p' rfl rfl
  exact ⟨.code, .code, code, rfl, rfl, h, h'⟩

theorem agree_of_tidy (h : ∀ l ∈ ls, Tidy l) : Agree InCode ls ls InCode := by
  obtain ⟨code, hcode⟩ := reads_of_tidy h
  exact .of_reads hcode hcode

theorem agree_blank : Agree Calm [""] [""] InCode := by
  have hblank {p : Mode} (hp : Calm p) : Reads p [""] .code [] := by
    rcases hp with rfl | rfl
    · exact ⟨['\n'], by decide +kernel, .inr ⟨[], rfl⟩, by decide⟩
    · exact ⟨[' ', '\n'], by decide +kernel, .inr ⟨[' '], rfl⟩, by decide⟩
  exact fun p p' hp hp' => ⟨.code, .code, [], rfl, rfl, hblank hp, hblank hp'⟩

theorem agree_comments (h : ∀ l ∈ ls, LineComment l) : Agree Calm ls [] Calm := by
  induction ls with
  | nil => exact .nil
  | cons l ls ih =>
    obtain ⟨hl, hls⟩ := List.forall_mem_cons.1 h
    have hline : Agree Calm [l] [] Calm := fun p p' hp hp' => by
      obtain ⟨q, hq, -, hreads⟩ := hl.reads hp
      exact ⟨q, p', [], hq, hp', hreads, .nil⟩
    exact hline.append (ih hls)

theorem agree_closed_comments (h : ∀ l ∈ ls, LineComment l)
    (hend : ∀ l ∈ ls.getLast?, l.toList.getLast? ≠ some '\\') : Agree InCode ls [] InCode := by
  obtain ⟨q, -, hcode, hreads⟩ := reads_lineComments h
  rw [hcode hend] at hreads
  exact .of_reads hreads .nil

end Agree

end RegAtlas.CHeader
