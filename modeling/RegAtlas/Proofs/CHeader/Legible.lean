import RegAtlas.Proofs.CHeader.Lines
import RegAtlas.Proofs.LayoutInstances

namespace RegAtlas.CHeader

variable {m : RegisterMap} {s : Setting} {generator : String}

/-- What a setting puts into a header stays in its comment or between its quotes. -/
structure Setting.Legible (s : Setting) : Prop where
  input : ∀ name ∈ s.inputName, StaysOpen (spliced name.toList)
  output : ∀ name ∈ s.outputName, StaysOpen (spliced name.toList)
  headers : ∀ file ∈ s.config.headers, ∀ c ∈ file.toList, c ≠ '"' ∧ c ≠ '\\' ∧ c ≠ '\n'

@[mk_iff]
structure RegisterMap.StaysInside (m : RegisterMap) : Prop where
  docs : Docs.StayInside m.docs
  author : ∀ author ∈ m.author, StaysOpen (spliced author.toList)
  note : ∀ note ∈ m.note, StaysOpen note.toList

instance : DecidablePred RegisterMap.StaysInside :=
  fun m => decidable_of_iff' _ (RegisterMap.staysInside_iff m)

section Frame

theorem inside_star : Inside " *" := ⟨.of_no_slash (by decide +kernel), by simp⟩

theorem inside_paragraph {ls : List String} (h : ∀ l ∈ ls, Inside l) :
    ∀ l ∈ paragraph ls, Inside l := by
  unfold paragraph
  split
  · exact List.forall_mem_nil _
  · exact List.forall_mem_cons.2 ⟨inside_star, h⟩

theorem inside_noteLines {note : String} (h : StaysOpen note.toList) :
    ∀ l ∈ noteLines note, Inside l := by
  refine List.forall_mem_cons.2 ⟨⟨.of_no_slash (by decide +kernel), by simp⟩, ?_⟩
  exact inside_bodyLines (by decide +kernel) h

theorem Wordy.staysOpen {a : String} (h : Wordy a) : StaysOpen (spliced a.toList) := by
  rw [spliced_of_not_mem h.plain.no_backslash]
  exact .of_no_slash fun hmem => (h.plain _ hmem).1 rfl

theorem inside_origin (hs : Setting.Legible s) :
    Inside (" * @note do not edit directly: generated using reggen" ++
      s.inputName.elim "" (" from " ++ ·) ++ ".") := by
  have hmargin : Margin " * @note do not edit directly: generated using reggen" := by
    decide +kernel
  have hdot : StaysOpen ['.'] := .of_no_star (by decide)
  rw [String.append_assoc]
  refine hmargin.inside ?_
  cases hinput : s.inputName with
  | none => exact .of_no_slash (by decide +kernel)
  | some name =>
    have hfrom : StaysOpen " from ".toList := .of_no_slash (by decide +kernel)
    have htext : (" from " ++ name ++ ".").toList = " from ".toList ++ (name.toList ++ ['.']) := by
      simp
    rw [Option.elim_some, htext, spliced_append_left (by decide +kernel),
      spliced_append_of_head (by decide)]
    exact hfrom.append_of_join ((hs.input name hinput).append hdot (by decide))
      fun h => absurd h (by decide +kernel)

theorem inside_fileLines (hm : RegisterMap.StaysInside m) (hs : Setting.Legible s)
    (hname : Wordy m.name) (hgenerator : StaysOpen (spliced generator.toList)) :
    ∀ l ∈ fileLines m s generator, Inside l := by
  have hfile : ∀ l ∈ (s.outputName.map (" * @file " ++ ·)).toList, Inside l := by
    intro l hl
    obtain ⟨name, hname, rfl⟩ := Option.map_eq_some_iff.1 (Option.mem_toList.1 hl)
    exact Margin.inside (by decide +kernel) (hs.output name hname)
  have hauthor : ∀ l ∈ (m.author.map (" * Listing file author: " ++ ·)).toList, Inside l := by
    intro l hl
    obtain ⟨author, hauthor, rfl⟩ := Option.map_eq_some_iff.1 (Option.mem_toList.1 hl)
    exact Margin.inside (by decide +kernel) (hm.author author hauthor)
  have hnote : ∀ l ∈ m.note.elim [] noteLines, Inside l := by
    cases hnote : m.note with
    | none => exact List.forall_mem_nil _
    | some note => exact inside_noteLines (hm.note note hnote)
  have hmargin : Margin " * " := by decide +kernel
  have hdocs := hm.docs.multiLine hmargin
  simp only [fileLines, List.forall_mem_append, List.forall_mem_cons]
  exact ⟨⟨⟨⟨hfile, Margin.inside (by decide +kernel) hname.staysOpen, inside_origin hs, inside_star,
    Margin.inside (by decide +kernel) hgenerator, List.forall_mem_nil _⟩, inside_paragraph hdocs⟩,
    inside_paragraph hauthor⟩, inside_paragraph hnote⟩

/-- Every item is read to its end, and none is a line of a comment that the next item ends. -/
def Header.Legible (h : Header) : Prop := ∀ item ∈ h, item.Legible ∧ ∀ line, item ≠ .comment line

theorem Header.Legible.agree {h : Header} (hh : h.Legible) :
    Agree InCode h.lines h.bare.lines InCode := by
  rw [Header.lines, Header.lines, Header.bare, List.flatMap_assoc]
  exact .flatMap fun item hitem => (hh item hitem).1.agree (hh item hitem).2

theorem wordy_guardName (m : RegisterMap) (s : Setting) : Wordy (guardName m s) := by
  have hlead : Wordy "REGGEN_" := by decide +kernel
  have hend : Wordy "_H" := by decide +kernel
  unfold guardName
  cases s.outputName with
  | none => exact (hlead.append (.macroName _)).append hend
  | some file => exact hlead.append (.macroName _)

namespace Header.Legible

variable {h h' : Header} {item : Item}

theorem nil : Header.Legible [] := List.forall_mem_nil _

theorem cons (hitem : item.Legible) (hcomment : ∀ line, item ≠ .comment line) (hh : h.Legible) :
    Header.Legible (item :: h) := List.forall_mem_cons.2 ⟨⟨hitem, hcomment⟩, hh⟩

theorem append (hh : h.Legible) (hh' : h'.Legible) : Header.Legible (h ++ h') :=
  List.forall_mem_append.2 ⟨hh, hh'⟩

theorem flatMap {α : Type} {f : α → Header} {as : List α} (hf : ∀ a ∈ as, (f a).Legible) :
    Header.Legible (as.flatMap f) := List.forall_mem_flatMap.2 hf

theorem ite {c : Prop} [Decidable c] (hh : h.Legible) (hh' : h'.Legible) :
    Header.Legible (if c then h else h') := by
  split
  · exact hh
  · exact hh'

end Header.Legible

theorem legible_opening (hm : RegisterMap.StaysInside m) (hs : Setting.Legible s)
    (hname : Wordy m.name) (hgenerator : StaysOpen (spliced generator.toList)) :
    Header.Legible (opening m s generator) := by
  have hfile : (Item.fileComment (fileLines m s generator)).Legible :=
    inside_fileLines hm hs hname hgenerator
  have hguard : (Item.guardStart (guardName m s)).Legible := wordy_guardName m s
  have hstdint : (Item.systemHeader "stdint.h").Legible := (by simp : Plain "stdint.h".toList)
  have hheaders (file : String) (hf : file ∈ s.config.headers) : (Item.ownHeader file).Legible :=
    hs.headers file hf
  unfold opening
  refine .append (.append (.ite (.cons trivial nofun .nil) .nil) ?_) ?_
  · exact .cons hfile nofun (.cons hguard nofun (.cons trivial nofun (.cons hstdint nofun .nil)))
  · exact List.forall_mem_map.2 fun file hf => ⟨hheaders file hf, nofun⟩

theorem legible_closing (m : RegisterMap) (s : Setting) : Header.Legible (closing m s) := by
  have hguard : (Item.guardEnd (guardName m s)).Legible := wordy_guardName m s
  unfold closing
  refine .append ?_ (.ite (.cons trivial nofun .nil) .nil)
  exact .cons trivial nofun (.cons hguard nofun .nil)

end Frame

theorem wordy_underscore : Wordy "_" := by decide +kernel

/-- The names that a header shows of a layout. -/
structure Layout.Worded (l : Layout) : Prop where
  name : Wordy l.name
  instances : ∀ i ∈ l.instances, Wordy i.name
  fields : ∀ f ∈ l.fieldsByPosition, Wordy f.name
  entries : ∀ f ∈ l.fieldsByPosition, ∀ e, f.enumeration = some e →
    ∀ entry ∈ e.entriesByValue, Wordy entry.name

theorem Layout.Worded.of_build {listing : Listing} {l : Layout} (h : listing.build.result = .ok m)
    (hl : l ∈ m.layouts) : Layout.Worded l := by
  have hm := RegisterMap.Coherent.of_build h
  obtain ⟨blocks, parts, hrun⟩ := listing.resolved_of_resolve (Listing.build_ok_iff.1 h).1
  refine ⟨?_, fun i hi => ?_, fun f hf => .of_identifier (hm.layout_field hl hf).1,
    fun f hf e he entry hentry => ?_⟩
  · rcases RegisterMap.mem_layouts_iff.1 hl with ⟨k, r, hr, -, rfl⟩ | ⟨b, block, k, t, hb, ht, rfl⟩
    · obtain ⟨rfl, hname⟩ := hm.registers_keyed k r hr
      exact .of_identifier hname
    · obtain ⟨rfl, hblock⟩ := hm.blocks_keyed b block hb
      obtain ⟨rfl, htemplate⟩ := hm.templates_keyed _ block hb k t ht
      exact .append (.of_identifier hblock) (.of_identifier htemplate)
  · obtain ⟨r, hr, -⟩ := hrun.exists_register hl hi
    exact .of_identifier (hm.registers_keyed _ r hr).2
  · obtain ⟨k, hk⟩ := Table.mem_values_iff.1 (List.mem_mergeSort.1 hentry)
    obtain ⟨rfl, hname⟩ := ((hm.layout_field hl hf).2.enumeration e he).entries_keyed k entry hk
    exact .of_identifier hname

@[mk_iff]
structure Enumeration.StaysInside (e : Enumeration) : Prop where
  docs : Docs.StayInside e.docs
  entries : ∀ entry ∈ e.entries.values, Docs.StayInside entry.docs

instance : DecidablePred Enumeration.StaysInside :=
  fun e => decidable_of_iff' _ (Enumeration.staysInside_iff e)

@[mk_iff]
structure Field.StaysInside (f : Field) : Prop where
  docs : Docs.StayInside f.docs
  localEnum : ∀ e ∈ f.localEnum, Enumeration.StaysInside e

instance : DecidablePred Field.StaysInside := fun f => decidable_of_iff' _ (Field.staysInside_iff f)

namespace FuncPack

variable {n : Naming} {l : Layout} {e : Enumeration} {bitFields : Bool} {base what : String}

structure Naming.Worded (n : Naming) : Prop where
  code : Wordy n.code
  macros : Wordy n.macros

theorem Naming.Worded.of_map (m : RegisterMap) (c : Config) : (Naming.of m c).Worded :=
  ⟨.codeName _, .macroName _⟩

namespace Naming.Worded

variable (hn : n.Worded)
include hn

theorem enumTag (base : String) : Wordy (n.enumTag base) :=
  (hn.code.append wordy_underscore).append (.codeName base)

theorem structTag (l : Layout) : Wordy (n.structTag l) := hn.enumTag l.name

theorem function (hwhat : Wordy what) : Wordy (n.function l what) :=
  ((hn.structTag l).append wordy_underscore).append hwhat

theorem enumerator (base : String) (entry : EnumEntry) : Wordy (n.enumerator base entry) :=
  (((hn.macros.append wordy_underscore).append (.macroName base)).append wordy_underscore).append
    (.macroName entry.name)

end Naming.Worded

def ShownInside (docs : Docs) (fields : Named Field) : Prop :=
  Docs.StayInside docs ∧ ∀ f ∈ fields.values, Field.StaysInside f

instance (docs : Docs) (fields : Named Field) : Decidable (ShownInside docs fields) :=
  inferInstanceAs (Decidable (_ ∧ _))

theorem legible_enumDecl (hn : n.Worded) (he : Enumeration.StaysInside e) :
    (enumDecl n base e).Legible where
  tag := hn.enumTag base
  docs := he.docs
  entries := List.forall_mem_map.2 fun entry hentry =>
    ⟨hn.enumerator base entry, he.entries entry (List.mem_mergeSort.1 hentry)⟩

theorem legible_typeOf (hn : n.Worded) (l : Layout) (f : Field) : (typeOf n l f).Legible := by
  unfold typeOf
  cases f.enumeration with
  | none => trivial
  | some e => exact hn.enumTag _

theorem legible_codec (hn : n.Worded) (hdocs : ShownInside l.docs l.fields) :
    StructDecl.Legible ⟨(codec n bitFields l).tag, l.docs, (codec n bitFields l).members⟩ where
  tag := hn.structTag l
  docs := hdocs.1
  members := List.forall_mem_map.2 fun f hf => ⟨.codeName f.name, legible_typeOf hn l f,
    (hdocs.2 f (Layout.mem_fieldsByPosition_iff.1 hf)).docs⟩

theorem legible_packStepOf {f : Field} (hf : Wordy f.name) : (packStepOf f).Legible where
  comment := by simp [packStepOf, hf.starless, starless_bitsText]
  member := .codeName f.name

theorem legible_structItemsOf (hn : n.Worded) (hl : Layout.Worded l)
    (hdocs : ShownInside l.docs l.fields) : Header.Legible (structItemsOf n bitFields l) := by
  have hpack : Wordy "pack" := by decide +kernel
  have hunpack : Wordy "unpack" := by decide +kernel
  have hoverwrite : Wordy "overwrite" := by decide +kernel
  have hunpackInto : Wordy "unpack_into" := by decide +kernel
  have hpackSteps : ∀ s ∈ (codec n bitFields l).packSteps, s.Legible :=
    List.forall_mem_map.2 fun f hf => legible_packStepOf (hl.fields f hf)
  have hunpackSteps : ∀ s ∈ (codec n bitFields l).unpackSteps, s.Legible :=
    List.forall_mem_map.2 fun f _ => ⟨.codeName f.name, legible_typeOf hn l f⟩
  have hrule : Starless (s!"{l.name} pack/unpack").toList := by simp [hl.name.starless]
  have hbrief (text : String) (h : '*' ∉ (spliced text.toList)) : (Item.brief text).Legible :=
    StaysOpen.of_no_star h
  unfold structItemsOf
  refine .cons trivial nofun (.cons (legible_codec hn hdocs) nofun (.cons trivial nofun ?_))
  refine .cons hrule nofun (.cons trivial nofun (.cons (hbrief _ (by decide +kernel)) nofun ?_))
  refine .cons ⟨hn.function hoverwrite, hn.structTag l, hpackSteps⟩ nofun (.cons trivial nofun ?_)
  refine .cons (hbrief _ (by decide +kernel)) nofun (.cons ?_ nofun (.cons trivial nofun ?_))
  · exact ⟨hn.function hpack, hn.structTag l, hn.function hoverwrite⟩
  refine .cons (hbrief _ (by decide +kernel)) nofun (.cons ?_ nofun (.cons trivial nofun ?_))
  · exact ⟨hn.function hunpackInto, hn.structTag l, hunpackSteps⟩
  refine .cons (hbrief _ (by decide +kernel)) nofun (.cons ?_ nofun .nil)
  exact ⟨hn.function hunpack, hn.structTag l, hn.function hunpackInto⟩

theorem legible_layoutDefines (hn : n.Worded) (hl : Layout.Worded l) :
    ∀ d ∈ layoutDefines n l, d.Legible := by
  have hreset : Wordy "__RESET" := by decide +kernel
  refine List.forall_mem_append.2 ⟨List.forall_mem_map.2 fun i hi => ⟨?_, ?_⟩, fun d hd => ?_⟩
  · exact (hn.macros.append wordy_underscore).append (.macroName i.name)
  · simp [(hl.instances i hi).starless]
  · obtain ⟨v, -, rfl⟩ := Option.map_eq_some_iff.1 (Option.mem_toList.1 hd)
    refine ⟨((hn.macros.append wordy_underscore).append (.macroName l.name)).append hreset, ?_⟩
    simp [hl.name.starless]

theorem legible_enumItem (hn : n.Worded) (he : Enumeration.StaysInside e) :
    Header.Legible [.blank, .enumeration (enumDecl n base e)] :=
  .cons trivial nofun (.cons (legible_enumDecl hn he) nofun .nil)

theorem legible_banner {title : String} (h : Starless title.toList) :
    Header.Legible [.blank, .banner title] :=
  .cons trivial nofun (.cons h nofun .nil)

theorem field_of_localEnum {x : Field × Enumeration} (hx : x ∈ l.localEnums) :
    l.fields.isEmpty = false ∧ ∃ f ∈ l.fields.values, f.localEnum = some x.2 := by
  obtain ⟨f, hf, hx⟩ := List.mem_filterMap.1 hx
  obtain ⟨e, he, rfl⟩ := Option.map_eq_some_iff.1 hx
  have hf := Layout.mem_fieldsByPosition_iff.1 hf
  obtain ⟨k, hk⟩ := Table.mem_values_iff.1 hf
  exact ⟨List.isEmpty_eq_false_iff.2 (List.ne_nil_of_mem (Table.mem_entries_iff.2 hk)), f, hf, he⟩

theorem legible_itemsOf (hn : n.Worded) (hl : Layout.Worded l)
    (hdocs : l.fields.isEmpty = false → ShownInside l.docs l.fields) :
    Header.Legible (itemsOf n bitFields l) := by
  have hdefines : (Item.defines ((layoutDefines n l).map some)).Legible := by
    intro d hd
    obtain ⟨d, hd, heq⟩ := List.mem_map.1 hd
    cases heq
    exact legible_layoutDefines hn hl d hd
  unfold itemsOf
  refine .append (.append (.append ?_ ?_) ?_) ?_
  · exact legible_banner (by simp [hl.name.starless])
  · exact .ite .nil (.cons trivial nofun (.cons hdefines nofun .nil))
  · refine .flatMap fun x hx => legible_enumItem hn ?_
    obtain ⟨hfields, f, hf, he⟩ := field_of_localEnum hx
    exact ((hdocs hfields).2 f hf).localEnum x.2 he
  · split
    · exact .nil
    · next hfields =>
      exact legible_structItemsOf hn hl (hdocs (Bool.eq_false_iff.2 hfields))

theorem legible_sharedEnumItems (hn : n.Worded)
    (henums : ∀ e ∈ m.enums.values, Enumeration.StaysInside e) :
    Header.Legible (sharedEnumItems n m) := by
  refine .ite .nil (.append (legible_banner (by simp)) ?_)
  exact .flatMap fun e he => legible_enumItem hn (henums e he)

theorem legible_dispatch (hn : n.Worded) (ls : List Layout) {name parameters : String}
    (hname : Wordy name) (hparameters : Plain parameters.toList) (hwhat : Wordy what) :
    (dispatch n ls name parameters what).Legible where
  name := (hn.macros.append wordy_underscore).append hname
  parameters := hparameters
  cases := List.forall_mem_map.2 fun l _ => ⟨hn.structTag l, hn.function hwhat⟩

theorem legible_dispatchItems (hn : n.Worded) (ls : List Layout) :
    Header.Legible (dispatchItems n ls) := by
  have hdispatch (brief : String) {name parameters what : String} {h : Header}
      (hbrief : '*' ∉ spliced brief.toList) (hname : Wordy name) (hwhat : Wordy what)
      (hparameters : Plain parameters.toList) (hh : h.Legible) :
      Header.Legible (.blank :: .brief brief :: dispatch n ls name parameters what :: h) := by
    have htext : (Item.brief brief).Legible := StaysOpen.of_no_star hbrief
    have hmacro : (dispatch n ls name parameters what).Legible :=
      legible_dispatch hn ls hname hparameters hwhat
    exact .cons trivial nofun (.cons htext nofun (.cons hmacro nofun hh))
  unfold dispatchItems
  refine .ite .nil (.append (legible_banner (by simp)) ?_)
  refine hdispatch _ (by decide +kernel) (by decide +kernel) (by decide +kernel) (by simp) ?_
  refine hdispatch _ (by decide +kernel) (by decide +kernel) (by decide +kernel) (by simp) ?_
  exact hdispatch _ (by decide +kernel) (by decide +kernel) (by decide +kernel) (by simp) .nil

/-- No documentation that a header of structs shows ends the comment that it is in. Registers
without fields have no struct. -/
@[mk_iff]
structure StaysInside (m : RegisterMap) : Prop where
  map : RegisterMap.StaysInside m
  enums : ∀ e ∈ m.enums.values, Enumeration.StaysInside e
  registers : ∀ r ∈ m.registers.values, r.fields.isEmpty = false → ShownInside r.docs r.fields
  templates : ∀ b ∈ m.blocks.values, ∀ t ∈ b.registers.values, t.fields.isEmpty = false →
    ShownInside t.docs t.fields

instance : DecidablePred StaysInside := fun m => decidable_of_iff' _ (staysInside_iff m)

theorem StaysInside.layout (hm : StaysInside m) (hl : l ∈ m.layouts) :
    l.fields.isEmpty = false → ShownInside l.docs l.fields := by
  rcases RegisterMap.mem_layouts_iff.1 hl with ⟨k, r, hr, -, rfl⟩ | ⟨b, block, k, t, hb, ht, rfl⟩
  · exact hm.registers r (Table.mem_values_iff.2 ⟨k, hr⟩)
  · exact hm.templates block (Table.mem_values_iff.2 ⟨b, hb⟩) t (Table.mem_values_iff.2 ⟨k, ht⟩)

theorem legible_headerOf {listing : Listing} (h : listing.build.result = .ok m)
    (hs : Setting.Legible s) (hgenerator : StaysOpen (spliced generator.toList))
    (hm : StaysInside m) : Header.Legible (headerOf m s generator) := by
  have hn : (Naming.of m s.config).Worded := .of_map m s.config
  have hname : Wordy m.name := .of_identifier (RegisterMap.Coherent.of_build h).name
  have hlayouts : Header.Legible
      (m.layouts.flatMap (itemsOf (Naming.of m s.config) s.config.bitFields)) :=
    .flatMap fun l hl => legible_itemsOf hn (.of_build h hl) (hm.layout hl)
  refine .append (.append (.append (.append ?_ ?_) hlayouts) (.ite ?_ .nil)) (legible_closing m s)
  · exact legible_opening hm.map hs hname hgenerator
  · exact legible_sharedEnumItems hn hm.enums
  · exact legible_dispatchItems hn _

end FuncPack

end RegAtlas.CHeader
