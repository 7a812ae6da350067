import RegAtlas.Proofs.Layout
import RegAtlas.Proofs.Resolve.Coherence
import RegAtlas.Proofs.Text

namespace RegAtlas

def HasText (s : String) : Prop := ∃ c ∈ s.toList, Text.isBlank c = false

theorem hasText_iff {s : String} : HasText s ↔ Text.allBlank s.toList = false := by
  rw [Text.allBlank, List.all_eq_false]
  simp only [HasText, Bool.not_eq_true]

theorem not_hasText_iff {s : String} : ¬HasText s ↔ ∀ c ∈ s.toList, Text.isBlank c = true := by
  rw [hasText_iff, Bool.not_eq_false, Text.allBlank, List.all_eq_true]

def Docs.OnOneLine (d : Docs) : Prop := ∀ b, d.brief = some b → '\n' ∉ b.toList

def Enumeration.OnOneLine (e : Enumeration) : Prop :=
  ∀ k entry, e.entries.get? k = some entry → entry.docs.OnOneLine

namespace Resolve

open Listing (EntrySpec EnumSpec)

variable {place : Breadcrumb} {name : String} {context : Context}

theorem briefFlaw?_eq_none_iff {brief : String} :
    briefFlaw? brief = none ↔ HasText brief ∧ '\n' ∉ (trimmedEnd brief).toList := by
  have hlines : (linesOf (trimmedEnd brief)).length ≤ 1 ↔ '\n' ∉ (trimmedEnd brief).toList := by
    rw [linesOf, List.length_map, trimmedEnd, String.toList_ofList]
    exact Text.length_lines_trimEnd_le_one_iff
  rw [hasText_iff, ← hlines, briefFlaw?]
  cases Text.allBlank brief.toList <;> simp

theorem docs_ok_iff {brief doc : Option String} {d : Docs} : docs brief doc place = .ok d ↔
    (∀ b ∈ brief, HasText b ∧ '\n' ∉ (trimmedEnd b).toList) ∧ (∀ t ∈ doc, HasText t) ∧
      ⟨brief.map trimmed, doc.map trimmedEnd⟩ = d := by
  have hbrief : brief.bind briefFlaw? = none ↔
      ∀ b ∈ brief, HasText b ∧ '\n' ∉ (trimmedEnd b).toList := by
    simp only [Option.bind_eq_none_iff, briefFlaw?_eq_none_iff, Option.mem_def]
  have hdoc : (doc.any fun t => Text.allBlank t.toList) = false ↔ ∀ t ∈ doc, HasText t := by
    cases doc <;> simp [hasText_iff]
  rw [← hbrief, ← hdoc, docs]
  cases brief.bind briefFlaw? with
  | some cause => simp
  | none => cases doc.any fun t => Text.allBlank t.toList <;> simp

theorem docs_ok {brief doc : Option String} {d : Docs} (h : docs brief doc place = .ok d) :
    d.OnOneLine := by
  obtain ⟨hbrief, -, rfl⟩ := docs_ok_iff.1 h
  intro b hb
  obtain ⟨text, rfl, rfl⟩ := Option.map_eq_some_iff.1 hb
  have hfeed := (hbrief text rfl).2
  rw [trimmedEnd, String.toList_ofList] at hfeed
  rw [trimmed, String.toList_ofList]
  exact fun hmem => hfeed (Text.mem_trimEnd_of_mem_trim hmem)

theorem entries_docs {specs : Named EntrySpec} {e : Enumeration}
    (h : entries specs place = .ok e.entries) : e.OnOneLine := by
  intro k entry hk
  obtain ⟨spec, -, hentry⟩ := (enumEntries_ok h).1.exists_left hk
  exact docs_ok hentry.docs

theorem FieldEnumOf.onOneLine {shared : Named Enumeration}
    (hshared : ∀ k e, shared.get? k = some e → e.OnOneLine) {docs : Docs} {spec : Option EnumSpec}
    {e : Enumeration} (h : FieldEnumOf shared name docs place spec (some e)) : e.OnOneLine := by
  cases h with
  | shared he => exact hshared _ e he
  | own hes => exact entries_docs hes

namespace Formed

variable {f : RegisterForm} (h : Formed context f)
include h

theorem field_docs : ∀ a ∈ f.fields.values, a.docs.OnOneLine := by
  intro a ha
  obtain ⟨k, hk⟩ := Table.mem_values_iff.1 ha
  obtain ⟨access, place, spec, hspec⟩ := h.exists_field hk
  exact docs_ok hspec.docs

theorem enum_docs (henums : ∀ k e, context.enums.get? k = some e → e.OnOneLine) :
    ∀ a ∈ f.fields.values, ∀ e, a.enumeration = some e → e.OnOneLine := by
  intro a ha e he
  obtain ⟨k, hk⟩ := Table.mem_values_iff.1 ha
  obtain ⟨access, place, spec, hspec⟩ := h.exists_field hk
  exact (he ▸ hspec.enumeration).onOneLine henums

end Formed

end Resolve

namespace RegisterMap

variable {l : Listing} {m : RegisterMap} {layout : Layout}

theorem layout_docs (h : l.build.result = .ok m) (hl : layout ∈ m.layouts) :
    layout.docs.OnOneLine ∧ ∀ f ∈ layout.fieldsByPosition, f.docs.OnOneLine := by
  simp only [Layout.mem_fieldsByPosition_iff]
  refine ⟨?_, (layout_formed h hl).field_docs⟩
  obtain ⟨blocks, parts, hm⟩ := l.resolved_of_resolve (Listing.build_ok_iff.1 h).1
  rcases mem_layouts_iff.1 hl with ⟨k, r, hk, ho, rfl⟩ | ⟨b, block, k, t, hb, hk, rfl⟩
  · obtain ⟨spec, -, hspec⟩ := hm.plain_iff.1 ⟨hk, ho⟩
    exact Resolve.docs_ok (Resolve.register_ok hspec).docs
  · obtain ⟨place, spec, hspec⟩ := hm.get?_template (hm.get?_block hb) hk
    exact Resolve.docs_ok hspec.docs

theorem block_docs (h : l.build.result = .ok m) {b : BlockTemplate} (hb : b ∈ m.blocks.values) :
    b.docs.OnOneLine := by
  obtain ⟨blocks, parts, hm⟩ := l.resolved_of_resolve (Listing.build_ok_iff.1 h).1
  obtain ⟨k, hk⟩ := Table.mem_values_iff.1 hb
  obtain ⟨place, spec, hspec⟩ := hm.exists_blockSpec hk
  exact Resolve.docs_ok hspec.docs

theorem enum_docs (h : l.build.result = .ok m) {k : String} {e : Enumeration}
    (he : m.enums.get? k = some e) : e.OnOneLine := by
  obtain ⟨spec, -, hspec⟩ := (l.enums_pointwise (Listing.build_ok_iff.1 h).1).exists_left he
  exact Resolve.entries_docs hspec.entries

theorem register_docs (h : l.build.result = .ok m) {k : String} {r : Register}
    (hr : m.registers.get? k = some r) : ∀ f ∈ r.fields.values,
      f.docs.OnOneLine ∧ ∀ e, f.enumeration = some e → e.OnOneLine := by
  obtain ⟨blocks, parts, hm⟩ := l.resolved_of_resolve (Listing.build_ok_iff.1 h).1
  have hform := hm.formed hr
  exact fun f hf => ⟨hform.field_docs f hf, hform.enum_docs (fun k e => enum_docs h) f hf⟩

end RegisterMap

end RegAtlas
