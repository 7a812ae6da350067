import RegAtlas.Markdown.LayoutTable
import RegAtlas.Markdown.Table
import RegAtlas.Proofs.CHeader.Lines
import RegAtlas.Proofs.Resolve.Briefs

namespace RegAtlas.Markdown

def OneLine (s : String) : Prop := '\n' ∉ s.toList

instance : DecidablePred OneLine := fun s => inferInstanceAs (Decidable ('\n' ∉ s.toList))

variable {a b s : String}

@[simp] theorem oneLine_append : OneLine (a ++ b) ↔ OneLine a ∧ OneLine b := by
  rw [OneLine, String.toList_append, List.mem_append, not_or]
  rfl

theorem OneLine.of_wordy (h : CHeader.Wordy a) : OneLine a := fun hmem =>
  CHeader.ne_of_isNameChar (h _ hmem) rfl rfl

theorem oneLine_hexUpper (w : Word) : OneLine (Numeral.hexUpper w) := .of_wordy (.hexUpper w)

theorem oneLine_lower {base n : Nat} (hpos : 0 < base) (hbase : base ≤ 16) :
    OneLine (Numeral.lower base n) := by
  refine .of_wordy fun c hc => ?_
  rw [Numeral.lower, String.toList_ofList] at hc
  exact CHeader.Wordy.toDigits hpos hbase c hc

theorem oneLine_hex (w : Word) : OneLine (Numeral.hex w) :=
  oneLine_append.2 ⟨by decide, oneLine_lower (by decide) (by decide)⟩

theorem oneLine_binary (w : Word) : OneLine (Numeral.binary w) :=
  oneLine_append.2 ⟨by decide, oneLine_lower (by decide) (by decide)⟩

theorem oneLine_range (r : BitRange) : OneLine r.text := by
  have hnat (n : Nat) : OneLine n.repr := .of_wordy (.nat n)
  have hdash : OneLine "-" := by decide
  unfold BitRange.text
  split
  · exact hnat r.lsb
  · exact oneLine_append.2 ⟨oneLine_append.2 ⟨hnat r.msb, hdash⟩, hnat r.lsb⟩

theorem oneLine_iff : OneLine s ↔ ∀ c ∈ s.toList, c ≠ '\n' :=
  ⟨fun h _ hc heq => h (heq ▸ hc), fun h hmem => h _ hmem rfl⟩

theorem oneLine_intercalate {sep : String} {parts : List String} (hsep : OneLine sep)
    (h : ∀ part ∈ parts, OneLine part) : OneLine (sep.intercalate parts) := by
  simp only [oneLine_iff] at hsep h ⊢
  exact forall_mem_intercalate hsep h

theorem oneLine_of_mem_linesOf {text : String} (h : a ∈ linesOf text) : OneLine (trimmed a) := by
  obtain ⟨line, hline, rfl⟩ := List.mem_map.1 h
  rw [OneLine, trimmed, String.toList_ofList, String.toList_ofList]
  refine fun hmem => ((Text.lines_spec text.toList).2 line hline).1 ?_
  exact (List.dropWhile_suffix _).subset ((Text.trimEnd_isPrefix _).subset hmem)

theorem pieces_unlines {ls : List String} (h : ∀ l ∈ ls, OneLine l) :
    Text.pieces (unlines ls).toList = ls.map String.toList ++ [[]] := by
  induction ls with
  | nil => rfl
  | cons l ls ih =>
    obtain ⟨hl, hls⟩ := List.forall_mem_cons.1 h
    have hcons : (unlines (l :: ls)).toList = l.toList ++ '\n' :: (unlines ls).toList := by
      rw [toList_unlines, toList_unlines, List.flatMap_cons, List.append_assoc,
        List.singleton_append]
    rw [hcons, Text.pieces_append, Text.pieces_of_not_mem hl, ih hls]
    rfl

def Inner (s : String) : Prop := OneLine s ∧ s.toList.head? ≠ some '#'

instance : DecidablePred Inner := fun s => inferInstanceAs (Decidable (OneLine s ∧ _))

theorem Inner.append (ha : Inner a) (hne : a ≠ "") (hb : OneLine b) : Inner (a ++ b) := by
  refine ⟨oneLine_append.2 ⟨ha.1, hb⟩, ?_⟩
  rw [String.toList_append, List.head?_append_of_ne_nil]
  · exact ha.2
  · exact fun hnil => hne (String.toList_inj.1 hnil)

theorem inner_twoLine {d : Docs} {lead : String} (h : d.OnOneLine) (hlead : Inner lead)
    (hne : lead ≠ "") : ∀ l ∈ d.twoLine lead, Inner l := by
  refine List.forall_mem_append.2 ⟨fun l hl => ?_, fun l hl => ?_⟩
  · rw [Docs.briefLine, Option.mem_toList, Option.map_eq_some_iff] at hl
    obtain ⟨brief, hbrief, rfl⟩ := hl
    exact hlead.append hne (h brief hbrief)
  · rw [Option.mem_toList, Option.map_eq_some_iff] at hl
    obtain ⟨body, -, rfl⟩ := hl
    refine hlead.append hne (oneLine_intercalate (by decide) ?_)
    exact List.forall_mem_map.2 fun line hline => oneLine_of_mem_linesOf hline

theorem oneLine_pad {w : Nat} (h : OneLine s) : OneLine (Columns.pad s ' ' w) :=
  oneLine_iff.2 (Columns.forall_mem_pad (oneLine_iff.1 h) (by decide) w)

theorem oneLine_tableRow {ws : List Nat} {row : Columns.Row} (h : ∀ cell ∈ row, OneLine cell) :
    OneLine (tableRow ws row) := by
  have hspace : OneLine " " := by decide
  have hbar : OneLine " |" := by decide
  induction ws generalizing row with
  | nil => exact (by decide : OneLine "")
  | cons w ws ih =>
    cases row with
    | nil =>
      rw [tableRow, oneLine_append, oneLine_append, oneLine_append]
      exact ⟨⟨⟨hspace, oneLine_pad (by decide)⟩, hbar⟩, ih h⟩
    | cons cell row =>
      obtain ⟨hcell, hrow⟩ := List.forall_mem_cons.1 h
      rw [tableRow, oneLine_append, oneLine_append, oneLine_append]
      exact ⟨⟨⟨hspace, oneLine_pad hcell⟩, hbar⟩, ih hrow⟩

theorem oneLine_tableRule (ws : List Nat) : OneLine (tableRule ws) := by
  rw [OneLine, tableRule, String.toList_join, List.mem_flatMap]
  rintro ⟨part, hpart, hmem⟩
  obtain ⟨w, -, rfl⟩ := List.mem_map.1 hpart
  simp at hmem

theorem inner_table {rows : List Columns.Row} (h : ∀ row ∈ rows, ∀ cell ∈ row, OneLine cell) :
    ∀ l ∈ table rows, Inner l := by
  have hbar : Inner "|" := by decide
  have hne : ("|" : String) ≠ "" := by decide
  cases rows with
  | nil => exact List.forall_mem_nil _
  | cons header rows =>
    obtain ⟨hheader, hrows⟩ := List.forall_mem_cons.1 h
    refine List.forall_mem_cons.2 ⟨hbar.append hne (oneLine_tableRow hheader),
      List.forall_mem_cons.2 ⟨hbar.append hne (oneLine_tableRule _), ?_⟩⟩
    exact List.forall_mem_map.2 fun row hrow => hbar.append hne (oneLine_tableRow (hrows row hrow))

end RegAtlas.Markdown
