import RegAtlas.Proofs.Markdown.Lines

namespace RegAtlas

open Markdown (OneLine oneLine_append oneLine_intercalate oneLine_of_mem_linesOf)

/-- A brief is a line of text without blanks around it, and a body is text without blanks at its
end. -/
structure Docs.Normal (d : Docs) : Prop where
  brief : ∀ b ∈ d.brief, HasText b ∧ Text.Trimmed b.toList ∧ '\n' ∉ b.toList
  body : ∀ b ∈ d.body, HasText b ∧ ∀ c ∈ b.toList.getLast?, Text.isBlank c = false

/-- The documentation has all that is given, but for blanks. -/
structure Docs.Holds (d : Docs) (brief doc : Option String) : Prop where
  brief : Option.Rel (fun b kept => Text.TrimsTo b.toList kept.toList) brief d.brief
  body : Option.Rel (fun t kept => ∃ after, t.toList = kept.toList ++ after ∧
    ∀ c ∈ after, Text.isBlank c = true) doc d.body

/-- Documentation behind `lead` on lines of its own. The body has a line more than line feeds. -/
structure Docs.RendersByLine (d : Docs) (lead : String) : Prop where
  multiLine : d.multiLine lead = (d.brief.map (lead ++ ·)).toList ++ d.body.elim [] fun body =>
    (Text.pieces body.toList).map fun l => trimmedEnd (lead ++ String.ofList l)
  length_multiLine : (d.multiLine lead).length =
    d.brief.toList.length + d.body.elim 0 (·.toList.count '\n' + 1)
  length_twoLine : (d.twoLine lead).length ≤ 2
  oneLine : ∀ l ∈ d.multiLine lead ++ d.twoLine lead, '\n' ∉ l.toList

/-- A brief and a body become documentation exactly if they have text and the brief is on one line,
and then the documentation is in normal form. -/
structure Docs.Normalizes (brief doc : Option String) (place : Breadcrumb) : Prop where
  accepted : (∃ d, Resolve.docs brief doc place = .ok d) ↔
    (∀ b ∈ brief, HasText b ∧ '\n' ∉ (trimmedEnd b).toList) ∧ ∀ t ∈ doc, HasText t
  holds : ∀ d, Resolve.docs brief doc place = .ok d → d.Holds brief doc
  normal : ∀ d, Resolve.docs brief doc place = .ok d → d.Normal
  unchanged : ∀ d, Resolve.docs brief doc place = .ok d → ∀ again,
    Resolve.docs d.brief d.body again = .ok d
  renders : ∀ d, Resolve.docs brief doc place = .ok d → ∀ lead : String, '\n' ∉ lead.toList →
    d.RendersByLine lead

variable {s lead : String} {brief doc : Option String} {d : Docs} {place : Breadcrumb}

theorem HasText.of_padded {core : String} {before after : List Char} (h : HasText s)
    (hs : s.toList = before ++ core.toList ++ after)
    (hbefore : ∀ c ∈ before, Text.isBlank c = true)
    (hafter : ∀ c ∈ after, Text.isBlank c = true) : HasText core := by
  obtain ⟨c, hc, hblank⟩ := h
  rw [hs, List.mem_append, List.mem_append] at hc
  refine ⟨c, (hc.resolve_right fun hc => ?_).resolve_left fun hc => ?_, hblank⟩
  · exact Bool.false_ne_true (hblank.symm.trans (hafter c hc))
  · exact Bool.false_ne_true (hblank.symm.trans (hbefore c hc))

theorem HasText.trimmedEnd (h : HasText s) : HasText (trimmedEnd s) := by
  obtain ⟨after, hs, hafter⟩ := Text.exists_trimEnd s.toList
  have hempty : ∀ c ∈ ([] : List Char), Text.isBlank c = true := List.forall_mem_nil _
  refine h.of_padded ?_ hempty hafter
  rwa [RegAtlas.trimmedEnd, String.toList_ofList]

theorem HasText.trimmed (h : HasText s) : HasText (trimmed s) := by
  obtain ⟨before, after, hs, hbefore, hafter⟩ := Text.exists_trim s.toList
  refine h.of_padded ?_ hbefore hafter
  rwa [RegAtlas.trimmed, String.toList_ofList]

namespace Docs

theorem Normal.of_docs (h : Resolve.docs brief doc place = .ok d) : d.Normal := by
  have hline := Resolve.docs_ok h
  obtain ⟨hbrief, hdoc, rfl⟩ := Resolve.docs_ok_iff.1 h
  refine ⟨fun b hb => ?_, fun b hb => ?_⟩
  · obtain ⟨text, htext, rfl⟩ := Option.map_eq_some_iff.1 hb
    have htrimmed : Text.Trimmed (trimmed text).toList := by
      rw [trimmed, String.toList_ofList]
      exact Text.trimmed_trim _
    exact ⟨(hbrief text htext).1.trimmed, htrimmed, hline _ hb⟩
  · obtain ⟨text, htext, rfl⟩ := Option.map_eq_some_iff.1 hb
    refine ⟨(hdoc text htext).trimmedEnd, fun c hc => ?_⟩
    rw [trimmedEnd, String.toList_ofList] at hc
    exact Text.getLast?_trimEnd hc

theorem Holds.of_docs (h : Resolve.docs brief doc place = .ok d) : d.Holds brief doc := by
  obtain ⟨-, -, rfl⟩ := Resolve.docs_ok_iff.1 h
  constructor
  · cases brief with
    | none => exact .none
    | some b =>
      refine .some ?_
      rw [trimmed, String.toList_ofList]
      exact Text.trimsTo_iff.2 rfl
  · cases doc with
    | none => exact .none
    | some t =>
      refine .some ?_
      rw [trimmedEnd, String.toList_ofList]
      exact Text.exists_trimEnd _

namespace Normal

theorem docs_eq (h : d.Normal) : Resolve.docs d.brief d.body place = .ok d := by
  obtain ⟨brief, body⟩ := d
  refine Resolve.docs_ok_iff.2 ⟨fun b hb => ?_, fun t ht => (h.body t ht).1, ?_⟩
  · obtain ⟨htext, htrimmed, hline⟩ := h.brief b hb
    rw [trimmedEnd, String.toList_ofList, htrimmed.trimEnd_eq]
    exact ⟨htext, hline⟩
  · have hbrief : brief.map trimmed = brief := by
      cases brief with
      | none => rfl
      | some b => rw [Option.map_some, trimmed, (h.brief b rfl).2.1.trim_eq, String.ofList_toList]
    have hbody : body.map trimmedEnd = body := by
      cases body with
      | none => rfl
      | some t =>
        rw [Option.map_some, trimmedEnd, Text.trimEnd_eq_self (h.body t rfl).2,
          String.ofList_toList]
    rw [hbrief, hbody]

theorem bodyLines_eq (h : d.Normal) : d.bodyLines lead = d.body.elim [] fun body =>
    (Text.pieces body.toList).map fun l => trimmedEnd (lead ++ String.ofList l) := by
  unfold bodyLines
  cases hd : d.body with
  | none => rfl
  | some body =>
    obtain ⟨⟨c, hc, -⟩, hlast⟩ := h.body body hd
    have hfeed : body.toList.getLast? ≠ some '\n' := fun hlf =>
      Bool.false_ne_true (hlast '\n' hlf).symm
    have hpieces := Text.lines_pieces (List.ne_nil_of_mem hc) hfeed
    rw [Option.elim_some, Option.elim_some, linesOf, List.map_map, ← List.forall₂_eq_eq_eq,
      List.forall₂_map_left_iff, List.forall₂_map_right_iff]
    refine hpieces.imp fun l p hp => ?_
    rcases hp with rfl | rfl
    · rfl
    -- A carriage return is among the blanks that are dropped from the end of a line.
    · have hreturn : ∀ c ∈ ['\r'], Text.isBlank c = true :=
        List.forall_mem_singleton.2 (by decide)
      simp only [Function.comp_apply, trimmedEnd, String.toList_append, String.toList_ofList]
      rw [← List.append_assoc, Text.trimEnd_append_blanks hreturn]

theorem oneLine (h : d.Normal) (hlead : OneLine lead) :
    ∀ l ∈ d.multiLine lead ++ d.twoLine lead, OneLine l := by
  have hbrief : ∀ l ∈ d.briefLine lead, OneLine l := by
    intro l hl
    obtain ⟨b, hb, rfl⟩ := Option.map_eq_some_iff.1 (Option.mem_toList.1 hl)
    exact oneLine_append.2 ⟨hlead, (h.brief b hb).2.2⟩
  have hbody : ∀ l ∈ d.bodyLines lead, OneLine l := by
    intro l hl
    unfold bodyLines at hl
    cases hd : d.body with
    | none => simp [hd] at hl
    | some body =>
      rw [hd, Option.elim_some, linesOf, List.map_map] at hl
      obtain ⟨line, hline, rfl⟩ := List.mem_map.1 hl
      have hline : OneLine (String.ofList line) := by
        rw [OneLine, String.toList_ofList]
        exact ((Text.lines_spec body.toList).2 line hline).1
      exact fun hmem => oneLine_append.2 ⟨hlead, hline⟩
        ((toList_trimmedEnd_isPrefix _).subset hmem)
  have hjoined : ∀ l ∈ (d.body.map fun body =>
      lead ++ " ".intercalate ((linesOf body).map trimmed)).toList, OneLine l := by
    intro l hl
    obtain ⟨body, -, rfl⟩ := Option.map_eq_some_iff.1 (Option.mem_toList.1 hl)
    refine oneLine_append.2 ⟨hlead, oneLine_intercalate (by decide) ?_⟩
    exact List.forall_mem_map.2 fun line hline => oneLine_of_mem_linesOf hline
  exact List.forall_mem_append.2 ⟨List.forall_mem_append.2 ⟨hbrief, hbody⟩,
    List.forall_mem_append.2 ⟨hbrief, hjoined⟩⟩

theorem rendersByLine (h : d.Normal) (hlead : OneLine lead) : d.RendersByLine lead where
  multiLine := by rw [Docs.multiLine, h.bodyLines_eq, briefLine]
  length_multiLine := by
    rw [Docs.multiLine, h.bodyLines_eq, briefLine, List.length_append]
    cases d.brief <;> cases d.body <;> simp [Text.length_pieces]
  length_twoLine := by
    rw [twoLine, briefLine]
    cases d.brief <;> cases d.body <;> simp
  oneLine := h.oneLine hlead

end Normal

theorem normalizes (brief doc : Option String) (place : Breadcrumb) :
    Normalizes brief doc place where
  accepted := by simp only [Resolve.docs_ok_iff, exists_and_left, exists_eq', and_true]
  holds _ h := .of_docs h
  normal _ h := .of_docs h
  unchanged _ h _ := (Normal.of_docs h).docs_eq
  renders _ h _ hlead := (Normal.of_docs h).rendersByLine hlead

example : (Resolve.docs (some " A gate.\n") (some "  Opens\r\n\n shuts \n") []).toOption.map
    (·.multiLine "// ") = some ["// A gate.", "//   Opens", "//", "//  shuts"] := by decide +kernel

end Docs

end RegAtlas
