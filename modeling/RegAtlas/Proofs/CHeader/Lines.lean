import RegAtlas.Proofs.CHeader.Bare
import RegAtlas.Proofs.CHeader.Comments
import RegAtlas.Proofs.CHeader.Spelling
import RegAtlas.Proofs.Columns
import RegAtlas.Proofs.Resolve.Parts

namespace RegAtlas.CHeader

variable {xs ys : List Char} {a b : String}

/-- Letters, digits and underscores, as in names and in numbers. -/
def Wordy (s : String) : Prop := ∀ c ∈ s.toList, isNameChar c = true

instance : DecidablePred Wordy := fun s => List.decidableBAll _ s.toList

section Characters

variable {c : Char} {cs : List Char}

@[simp] theorem plain_nil : Plain [] := List.forall_mem_nil _

@[simp] theorem plain_cons :
    Plain (c :: cs) ↔ (c ≠ '/' ∧ c ≠ '"' ∧ c ≠ '\'' ∧ c ≠ '\\') ∧ Plain cs := List.forall_mem_cons

@[simp] theorem plain_append : Plain (xs ++ ys) ↔ Plain xs ∧ Plain ys := List.forall_mem_append

@[simp] theorem starless_nil : Starless [] := List.forall_mem_nil _

@[simp] theorem starless_cons :
    Starless (c :: cs) ↔
      (c ≠ '*' ∧ c ≠ '"' ∧ c ≠ '\'' ∧ c ≠ '\\' ∧ c ≠ '\n') ∧ Starless cs :=
  List.forall_mem_cons

@[simp] theorem starless_append : Starless (xs ++ ys) ↔ Starless xs ∧ Starless ys :=
  List.forall_mem_append

@[simp] theorem toString_text (s : String) : toString s = s := rfl

end Characters

theorem ne_of_isNameChar {c d : Char} (hc : isNameChar c = true) (hd : isNameChar d = false) :
    c ≠ d := by
  rintro rfl
  rw [hc] at hd
  cases hd

namespace Wordy

theorem plain (h : Wordy a) : Plain a.toList := fun c hc =>
  ⟨ne_of_isNameChar (h c hc) rfl, ne_of_isNameChar (h c hc) rfl, ne_of_isNameChar (h c hc) rfl,
    ne_of_isNameChar (h c hc) rfl⟩

theorem starless (h : Wordy a) : Starless a.toList := fun c hc =>
  ⟨ne_of_isNameChar (h c hc) rfl, ne_of_isNameChar (h c hc) rfl, ne_of_isNameChar (h c hc) rfl,
    ne_of_isNameChar (h c hc) rfl, ne_of_isNameChar (h c hc) rfl⟩

theorem append (ha : Wordy a) (hb : Wordy b) : Wordy (a ++ b) := by
  intro c hc
  rw [String.toList_append, List.mem_append] at hc
  exact hc.elim (ha c) (hb c)

theorem of_identifier (h : Identifier a) : Wordy a := by
  obtain ⟨c, cs, hlist, hc, hcs⟩ := h
  rw [Wordy, hlist]
  refine List.forall_mem_cons.2 ⟨Resolve.isNameRest_iff.2 ?_, fun d hd => ?_⟩
  · exact hc.imp_right .inr
  · exact Resolve.isNameRest_iff.2 (hcs d hd)

end Wordy

theorem isNameChar_iff {c : Char} : isNameChar c = true ↔ 48 ≤ c.toNat ∧ c.toNat ≤ 57 ∨
    65 ≤ c.toNat ∧ c.toNat ≤ 90 ∨ 97 ≤ c.toNat ∧ c.toNat ≤ 122 ∨ c.toNat = 95 := by
  have hletter : IsLetter c ↔ 97 ≤ c.toNat ∧ c.toNat ≤ 122 ∨ 65 ≤ c.toNat ∧ c.toNat ≤ 90 := Iff.rfl
  have hdigit : IsDigit c ↔ 48 ≤ c.toNat ∧ c.toNat ≤ 57 := Iff.rfl
  have hunderscore : c = '_' ↔ c.toNat = 95 := Char.toNat_inj.symm
  have hrest : isNameChar c = true ↔ IsLetter c ∨ IsDigit c ∨ c = '_' := Resolve.isNameRest_iff
  rw [hrest, hletter, hdigit, hunderscore]
  omega

theorem isNameChar_sanitizeChar (c : Char) : isNameChar (sanitizeChar c) = true := by
  unfold sanitizeChar
  split
  · assumption
  · rfl

namespace Wordy

theorem macroName (a : String) : Wordy (macroName a) := by
  intro c hc
  rw [toList_macroName] at hc
  obtain ⟨d, -, rfl⟩ := List.mem_map.1 hc
  have hd := isNameChar_iff.1 (isNameChar_sanitizeChar d)
  rw [isNameChar_iff, toNat_toUpper]
  split_ifs <;> omega

theorem codeName (a : String) : Wordy (codeName a) := by
  intro c hc
  rw [toList_codeName] at hc
  obtain ⟨d, -, rfl⟩ := List.mem_map.1 hc
  have hd := isNameChar_iff.1 (isNameChar_sanitizeChar d)
  rw [isNameChar_iff, toNat_toLower]
  split_ifs <;> omega

theorem toDigitsCore {base fuel n : Nat} {ds : List Char} (hpos : 0 < base) (hbase : base ≤ 16)
    (hds : ∀ c ∈ ds, isNameChar c = true) :
    ∀ c ∈ Nat.toDigitsCore base fuel n ds, isNameChar c = true := by
  have hdigit : ∀ d : Fin 16, isNameChar (Nat.digitChar d) = true := by decide
  induction fuel generalizing n ds with
  | zero => exact hds
  | succ fuel ih =>
    have hcons : ∀ c ∈ Nat.digitChar (n % base) :: ds, isNameChar c = true :=
      List.forall_mem_cons.2 ⟨hdigit ⟨n % base, (Nat.mod_lt n hpos).trans_le hbase⟩, hds⟩
    rw [Nat.toDigitsCore]
    split
    · exact hcons
    · exact ih hcons

theorem toDigits {base n : Nat} (hpos : 0 < base) (hbase : base ≤ 16) :
    ∀ c ∈ Nat.toDigits base n, isNameChar c = true :=
  toDigitsCore hpos hbase (List.forall_mem_nil _)

theorem nat (n : Nat) : Wordy n.repr := by
  rw [Wordy, Nat.toList_repr]
  exact toDigits (by decide) (by decide)

theorem hexUpper (w : Word) : Wordy (Numeral.hexUpper w) := by
  refine append (by decide +kernel) fun c hc => ?_
  rw [Numeral.upper, String.toList_ofList] at hc
  obtain ⟨d, hd, rfl⟩ := List.mem_map.1 hc
  have hd := isNameChar_iff.1 (toDigits (by decide) (by decide) d hd)
  rw [isNameChar_iff, toNat_toUpper]
  split_ifs <;> omega

theorem literal (v : Literal) : Wordy v.text := by
  have hshort : Wordy "U" := by decide +kernel
  have hlong : Wordy "ULL" := by decide +kernel
  cases v with
  | plain v => exact (hexUpper v).append hshort
  | sized v =>
    refine (hexUpper v).append ?_
    split
    · exact hshort
    · exact hlong
  | decimal n => exact (nat n).append hshort

end Wordy

@[simp] theorem plain_toDigits (n : Nat) : Plain (Nat.toDigits 10 n) :=
  Nat.toList_repr ▸ (Wordy.nat n).plain

@[simp] theorem starless_toDigits (n : Nat) : Starless (Nat.toDigits 10 n) :=
  Nat.toList_repr ▸ (Wordy.nat n).starless

section Columns

theorem starless_pad {s : String} {fill : Char} {width : Nat} (h : Starless s.toList)
    (hfill : Starless [fill]) : Starless (Columns.pad s fill width).toList :=
  Columns.forall_mem_pad h (hfill fill (List.mem_singleton_self fill)) width

theorem starless_columns {rows : List Columns.Row}
    (h : ∀ row ∈ rows, ∀ cell ∈ row, Starless cell.toList) :
    ∀ l ∈ Columns.lines rows "" " ", Starless l.toList := by
  have hspace : Starless " ".toList := by decide +kernel
  exact Columns.forall_mem_lines (hspace ' ' (by simp)) (by simp) hspace h

theorem starless_rangeText (r : BitRange) : Starless r.text.toList := by
  unfold BitRange.text
  split <;> simp

theorem starless_bitsText (s : BitSet) : Starless s.text.toList := by
  have hcomma : Starless ", ".toList := by decide +kernel
  exact forall_mem_intercalate hcomma (List.forall_mem_map.2 fun r _ => starless_rangeText r)

end Columns

section Fixed

variable {title : String}

theorem tidy_bannerLines (h : Starless title.toList) : ∀ l ∈ bannerLines title, Tidy l := by
  have hrule : Tidy (Columns.pad "// " '=' pageWidth) := .inr (starless_pad (by simp) (by simp))
  have htitle : Tidy (Columns.pad s!"// ==== {title} " '=' pageWidth) :=
    .inr (starless_pad (by simp [h]) (by simp))
  intro l hl
  simp only [bannerLines, List.mem_cons, List.not_mem_nil, or_false] at hl
  rcases hl with rfl | rfl | rfl
  · exact hrule
  · exact htitle
  · exact hrule

theorem tidy_ruleLine (h : Starless title.toList) : Tidy (ruleLine title) :=
  .inr (starless_pad (by simp [h]) (by simp))

end Fixed

/-- The macro and its comment have neither stars nor quotes in them. -/
structure Define.Legible (d : Define) : Prop where
  name : Wordy d.name
  comment : Starless d.comment.toList

def MemberType.Legible : MemberType → Prop
  | word _ => True
  | enumeration tag => Wordy tag

structure Member.Legible (m : Member) : Prop where
  name : Wordy m.name
  type : m.type.Legible
  docs : Docs.StayInside m.docs

structure Enumerator.Legible (e : Enumerator) : Prop where
  name : Wordy e.name
  docs : Docs.StayInside e.docs

structure EnumDecl.Legible (d : EnumDecl) : Prop where
  tag : Wordy d.tag
  docs : Docs.StayInside d.docs
  entries : ∀ e ∈ d.entries, e.Legible

structure StructDecl.Legible (d : StructDecl) : Prop where
  tag : Wordy d.tag
  docs : Docs.StayInside d.docs
  members : ∀ m ∈ d.members, m.Legible

structure PackStep.Legible (s : PackStep) : Prop where
  comment : Starless s.comment.toList
  member : Wordy s.member

structure UnpackStep.Legible (s : UnpackStep) : Prop where
  member : Wordy s.member
  type : s.type.Legible

def Function.Legible : Function → Prop
  | overwrite name tag _ _ steps => Wordy name ∧ Wordy tag ∧ ∀ s ∈ steps, s.Legible
  | pack name tag _ through | unpack name tag _ through => Wordy name ∧ Wordy tag ∧ Wordy through
  | unpackInto name tag _ steps => Wordy name ∧ Wordy tag ∧ ∀ s ∈ steps, s.Legible

structure Dispatch.Legible (d : Dispatch) : Prop where
  name : Wordy d.name
  parameters : Plain d.parameters.toList
  cases : ∀ c ∈ d.cases, Wordy c.1 ∧ Wordy c.2

theorem CWord.plain_text (w : CWord) : Plain w.text.toList := by
  cases w <;> decide +kernel

theorem MemberType.Legible.plain {t : MemberType} (h : t.Legible) : Plain t.text.toList := by
  cases t with
  | word w => exact w.plain_text
  | enumeration tag => simp [MemberType.text, Wordy.plain h]

theorem Define.Legible.starless {d : Define} (h : d.Legible) :
    ∀ cell ∈ d.row, Starless cell.toList := by
  have hname := h.name.starless
  have hvalue := (Wordy.literal d.value).starless
  have hcomment := h.comment
  simp [Define.row, hname, hvalue, hcomment]

theorem tidy_defines {rows : List (Option Define)} (h : ∀ d, some d ∈ rows → d.Legible) :
    ∀ l ∈ (Item.defines rows).lines, Tidy l := by
  refine fun l hl => .inr (starless_columns (fun row hrow => ?_) l hl)
  obtain ⟨r, hr, rfl⟩ := List.mem_map.1 hrow
  cases r with
  | none => exact List.forall_mem_nil _
  | some d => exact (h d hr).starless

theorem plain_literal (v : Literal) : Plain v.text.toList := (Wordy.literal v).plain

theorem plain_clearedText (packed : CWord) (mask : Word) :
    Plain (clearedText packed mask).toList := by
  simp [clearedText, packed.plain_text, plain_literal]

theorem FixedBits.tidy (f : FixedBits) (packed : CWord) : ∀ l ∈ f.lines packed, Tidy l := by
  simp only [FixedBits.lines, List.forall_mem_cons]
  refine ⟨.inr (by simp), .inl ?_, List.forall_mem_nil _⟩
  simp [packed.plain_text, plain_literal, plain_clearedText]

theorem PackStep.Legible.tidy {s : PackStep} (h : s.Legible) (packed : CWord) :
    ∀ l ∈ s.lines packed, Tidy l := by
  simp only [PackStep.lines, List.forall_mem_cons]
  refine ⟨.inr (by simp [h.comment]), .inl ?_, List.forall_mem_nil _⟩
  simp [packed.plain_text, plain_literal, plain_clearedText, h.member.plain]

theorem UnpackStep.Legible.tidy {s : UnpackStep} (h : s.Legible) : Tidy s.line :=
  .inl (by simp [UnpackStep.line, h.member.plain, h.type.plain, plain_literal])

theorem Function.Legible.plain_signature {f : Function} (h : f.Legible) :
    Plain f.signature.toList := by
  cases f with
  | overwrite name tag packed fixed steps =>
    simp [signature, packed.plain_text, h.1.plain, h.2.1.plain]
  | pack name tag packed through => simp [signature, packed.plain_text, h.1.plain, h.2.1.plain]
  | unpackInto name tag packed steps => simp [signature, packed.plain_text, h.1.plain, h.2.1.plain]
  | unpack name tag packed through => simp [signature, packed.plain_text, h.1.plain, h.2.1.plain]

theorem Function.Legible.tidy_body {f : Function} (h : f.Legible) : ∀ l ∈ f.body, Tidy l := by
  cases f with
  | overwrite name tag packed fixed steps =>
    have hfixed : ∀ l ∈ fixed.elim [] (·.lines packed), Tidy l := by
      cases fixed with
      | none => exact List.forall_mem_nil _
      | some fixed => exact fixed.tidy packed
    have hsteps : ∀ l ∈ steps.flatMap (·.lines packed), Tidy l :=
      List.forall_mem_flatMap.2 fun s hs => (h.2.2 s hs).tidy packed
    refine List.forall_mem_append.2 ⟨List.forall_mem_append.2 ⟨hfixed, hsteps⟩, ?_⟩
    exact List.forall_mem_singleton.2 (.inl (by simp))
  | pack name tag packed through =>
    exact List.forall_mem_singleton.2 (.inl (by simp [h.2.2.plain]))
  | unpackInto name tag packed steps =>
    exact List.forall_mem_map.2 fun s hs => (h.2.2 s hs).tidy
  | unpack name tag packed through =>
    simp only [body, List.forall_mem_cons]
    exact ⟨.inl (by simp [h.2.1.plain]), .inl (by simp [h.2.2.plain]), .inl (by simp),
      List.forall_mem_nil _⟩

theorem Function.Legible.tidy {f : Function} (h : f.Legible) : ∀ l ∈ f.lines, Tidy l := by
  have hfirst : Tidy ("static inline " ++ f.signature ++ " \x7b") :=
    .inl (by simp [h.plain_signature])
  have hlast : Tidy "\x7d" := .inl (by simp)
  simp only [lines, List.forall_mem_append, List.forall_mem_singleton]
  exact ⟨⟨hfirst, h.tidy_body⟩, hlast⟩

theorem Plain.no_backslash {cs : List Char} (h : Plain cs) : '\\' ∉ cs :=
  fun hmem => (h _ hmem).2.2.2 rfl

theorem plain_spliced_continued {l : String} (h : Plain l.toList) :
    Plain (spliced ((Dispatch.continued l).toList ++ ['\n'])) := by
  have hpad : Plain ((Columns.pad l ' ' continuationColumn).toList ++ [' ']) := by
    simp only [Columns.pad, String.toList_append, String.toList_ofList, plain_append]
    refine ⟨⟨h, fun c hc => ?_⟩, by simp⟩
    rw [(List.mem_replicate.1 hc).2]
    decide
  have hsplit : (Dispatch.continued l).toList ++ ['\n'] =
      (Columns.pad l ' ' continuationColumn).toList ++ [' '] ++ ['\\', '\n'] := by
    simp [Dispatch.continued]
  rw [hsplit, spliced_append_left hpad.no_backslash]
  simpa [spliced] using hpad

theorem read_continued {ls : List String} {last : String} (hls : ∀ l ∈ ls, Plain l.toList)
    (hlast : Plain last.toList) : ∃ xs,
      read .code (spliced (unlines (ls.map Dispatch.continued ++ [last])).toList) =
        (.code, xs ++ ['\n']) := by
  induction ls with
  | nil =>
    have hline : Plain (last.toList ++ ['\n']) := by simp [hlast]
    refine ⟨last.toList, ?_⟩
    rw [List.map_nil, List.nil_append, unlines_singleton, spliced_of_not_mem hline.no_backslash,
      read_plain hline]
  | cons l ls ih =>
    obtain ⟨hl, hls⟩ := List.forall_mem_cons.1 hls
    obtain ⟨xs, hxs⟩ := ih hls
    refine ⟨spliced ((Dispatch.continued l).toList ++ ['\n']) ++ xs, ?_⟩
    rw [List.map_cons, List.cons_append, spliced_unlines_cons, read_append,
      read_plain (plain_spliced_continued hl)]
    dsimp only
    rw [hxs, List.append_assoc]

theorem plain_caseLines {cs : List (String × String)} (h : ∀ c ∈ cs, Wordy c.1 ∧ Wordy c.2) :
    ∀ l ∈ Dispatch.caseLines cs, Plain l.toList := by
  fun_induction Dispatch.caseLines cs with
  | case1 => exact List.forall_mem_nil _
  | case2 tag function =>
    obtain ⟨htag, hfunction⟩ := h _ List.mem_cons_self
    exact List.forall_mem_singleton.2 (by simp [htag.plain, hfunction.plain])
  | case3 tag function cs hne ih =>
    obtain ⟨⟨htag, hfunction⟩, hcs⟩ := List.forall_mem_cons.1 h
    exact List.forall_mem_cons.2 ⟨by simp [htag.plain, hfunction.plain], ih hcs⟩

theorem Dispatch.Legible.reads {d : Dispatch} (h : d.Legible) :
    ∃ code, Reads .code d.lines .code code := by
  have hhead : Plain ("#define " ++ d.name ++ "(" ++ d.parameters ++
      ") _Generic((_struct_ptr),").toList := by
    simp [h.name.plain, h.parameters]
  have hlast : Plain ("  )(" ++ d.parameters ++ ")").toList := by simp [h.parameters]
  obtain ⟨xs, hxs⟩ := read_continued
    (List.forall_mem_cons.2 ⟨hhead, plain_caseLines h.cases⟩) hlast
  exact ⟨_, _, hxs, .inr ⟨xs, rfl⟩, rfl⟩

namespace Item

/-- Comments in the item end where it ends them. -/
def Legible : Item → Prop
  | blank | formatOff | formatOn => True
  | fileComment ls => ∀ l ∈ ls, Inside l
  | guardStart name | guardEnd name => Wordy name
  | systemHeader file => Plain file.toList
  | ownHeader file => ∀ c ∈ file.toList, c ≠ '"' ∧ c ≠ '\\' ∧ c ≠ '\n'
  | comment line => LineComment line
  | banner title | rule title => Starless title.toList
  | brief text => StaysOpen (spliced text.toList)
  | defines rows => ∀ d, some d ∈ rows → d.Legible
  | enumeration decl => decl.Legible
  | struct decl => decl.Legible
  | function f => f.Legible
  | dispatch d => d.Legible

end Item

section Declarations

theorem agree_documented {d : RegAtlas.Docs} {lead l : String} (hd : Docs.StayInside d)
    (hlead : lead = "" ∨ lead = "  ") (hl : Plain l.toList) :
    Agree InCode (docLines d lead ++ [l]) [l] InCode :=
  (Agree.of_reads (hd.reads_docLines hlead) .nil).append
    (agree_of_tidy (List.forall_mem_singleton.2 (.inl hl)))

theorem agree_closingBrace : Agree InCode ["\x7d;"] ["\x7d;"] InCode :=
  agree_of_tidy (List.forall_mem_singleton.2 (.inl (by simp)))

theorem EnumDecl.Legible.agree {d : EnumDecl} (h : d.Legible) :
    Agree InCode d.lines d.bare.lines InCode := by
  have hentries : Agree InCode (d.entries.flatMap Enumerator.lines)
      (d.bare.entries.flatMap Enumerator.lines) InCode := by
    rw [bare, List.flatMap_map]
    refine .flatMap fun e he => agree_documented (h.entries e he).docs (.inr rfl) ?_
    simp [(h.entries e he).name.plain, plain_literal]
  exact ((agree_documented h.docs (.inl rfl) (by simp [h.tag.plain])).append hentries).append
    agree_closingBrace

theorem StructDecl.Legible.agree {d : StructDecl} (h : d.Legible) :
    Agree InCode d.lines d.bare.lines InCode := by
  have hwidth (w : Option Nat) : Plain (w.elim "" fun w => " : " ++ w.repr).toList := by
    cases w with
    | none => exact plain_nil
    | some w => simp
  have hmembers : Agree InCode (d.members.flatMap Member.lines)
      (d.bare.members.flatMap Member.lines) InCode := by
    rw [bare, List.flatMap_map]
    refine .flatMap fun m hm => agree_documented (h.members m hm).docs (.inr rfl) ?_
    simp [(h.members m hm).type.plain, (h.members m hm).name.plain, hwidth]
  exact ((agree_documented h.docs (.inl rfl) (by simp [h.tag.plain])).append hmembers).append
    agree_closingBrace

end Declarations

namespace Item

variable {item : Item}

theorem lines_singleton (item : Item) : Header.lines [item] = item.lines := by
  rw [Header.lines, List.flatMap_singleton]

theorem agree_self {code : List (List Char)} (h : Reads .code item.lines .code code) :
    Agree InCode item.lines (Header.lines [item]) InCode := by
  rw [lines_singleton]
  exact .of_reads h h

theorem agree_self_of_tidy (h : ∀ l ∈ item.lines, Tidy l) :
    Agree InCode item.lines (Header.lines [item]) InCode := by
  rw [lines_singleton]
  exact agree_of_tidy h

theorem reads_fileComment {ls : List String} (h : ∀ l ∈ ls, Inside l) :
    Reads .code (fileComment ls).lines .code [] :=
  reads_block "" (by simp) h

theorem reads_brief {text : String} (h : StaysOpen (spliced text.toList)) :
    Reads .code (brief text).lines .code [] :=
  CHeader.reads_brief "" (by simp) h

theorem reads_guardEnd {name : String} (h : Wordy name) :
    ∃ code, Reads .code (guardEnd name).lines .code code := by
  refine ⟨_, reads_comment "#endif ".toList (" ".toList ++ name.toList ++ [' ']) ?_ (by simp)
    (.of_no_slash ?_)⟩
  · have hline : '\\' ∉ ("#endif /* " ++ name ++ " */").toList ++ ['\n'] := by
      simpa using h.plain.no_backslash
    rw [lines, unlines_singleton, spliced_of_not_mem hline]
    simp
  · simpa using fun hmem => (h.plain _ hmem).1 rfl

theorem read_literal {cs : List Char} (h : ∀ c ∈ cs, c ≠ '"' ∧ c ≠ '\\' ∧ c ≠ '\n') :
    read (.literal '"') cs = (.literal '"', cs) := by
  induction cs with
  | nil => rfl
  | cons c cs ih =>
    obtain ⟨⟨hquote, hbackslash, hline⟩, hcs⟩ := List.forall_mem_cons.1 h
    rw [read, Mode.next, if_neg (by simp [hquote, hline]), if_neg hbackslash]
    dsimp only
    rw [ih hcs]
    rfl

theorem reads_ownHeader {file : String} (h : (ownHeader file).Legible) :
    ∃ code, Reads .code (ownHeader file).lines .code code := by
  have hinclude : Plain "#include ".toList := by simp
  have hline : '\\' ∉ ("#include \"" ++ file ++ "\"").toList ++ ['\n'] := by
    simpa using fun hmem => (h _ hmem).2.1 rfl
  have hsplit : ("#include \"" ++ file ++ "\"").toList ++ ['\n'] =
      "#include ".toList ++ ('"' :: (file.toList ++ ['"', '\n'])) := by simp
  refine ⟨_, "#include ".toList ++ ('"' :: (file.toList ++ ['"'])) ++ ['\n'], ?_, .inr ⟨_, rfl⟩,
    rfl⟩
  rw [lines, unlines_singleton, spliced_of_not_mem hline, hsplit, read_append, read_plain hinclude,
    read, read_append]
  change ((read (read (.literal '"') file.toList).1 _).1, _ ++ (['"'] ++
    ((read (.literal '"') file.toList).2 ++ (read (read (.literal '"') file.toList).1 _).2))) = _
  rw [read_literal h]
  simp [read, Mode.next, Mode.nextInCode]

theorem Legible.agree (h : item.Legible) (hcomment : ∀ line, item ≠ .comment line) :
    Agree InCode item.lines (Header.lines item.bare) InCode := by
  cases item with
  | comment line => exact absurd rfl (hcomment line)
  | fileComment ls =>
    rw [bare, lines_singleton]
    exact .of_reads (reads_fileComment h) (reads_fileComment (List.forall_mem_nil _))
  | enumeration decl =>
    rw [bare, lines_singleton]
    exact EnumDecl.Legible.agree h
  | struct decl =>
    rw [bare, lines_singleton]
    exact StructDecl.Legible.agree h
  | blank => exact agree_self_of_tidy (List.forall_mem_singleton.2 (.inl (by simp)))
  | formatOff => exact agree_self_of_tidy (List.forall_mem_singleton.2 (.inr (by simp)))
  | formatOn => exact agree_self_of_tidy (List.forall_mem_singleton.2 (.inr (by simp)))
  | guardStart name =>
    have hname : Plain name.toList := Wordy.plain h
    exact agree_self_of_tidy (List.forall_mem_cons.2 ⟨.inl (by simp [hname]),
      List.forall_mem_singleton.2 (.inl (by simp [hname]))⟩)
  | guardEnd name => exact agree_self (reads_guardEnd h).choose_spec
  | systemHeader file =>
    have hfile : Plain file.toList := h
    exact agree_self_of_tidy (List.forall_mem_singleton.2 (.inl (by simp [hfile])))
  | ownHeader file => exact agree_self (reads_ownHeader h).choose_spec
  | banner title => exact agree_self_of_tidy (tidy_bannerLines h)
  | rule title => exact agree_self_of_tidy (List.forall_mem_singleton.2 (tidy_ruleLine h))
  | brief text => exact agree_self (reads_brief h)
  | defines rows => exact agree_self_of_tidy (tidy_defines h)
  | function f => exact agree_self_of_tidy (Function.Legible.tidy h)
  | dispatch d => exact agree_self (Dispatch.Legible.reads h).choose_spec

end Item

end RegAtlas.CHeader
