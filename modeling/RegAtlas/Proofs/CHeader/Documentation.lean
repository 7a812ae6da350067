import RegAtlas.Generator.Basic
import RegAtlas.Proofs.CHeader.Legible
import RegAtlas.Proofs.Resolve.Briefs

namespace RegAtlas

namespace Listing

/-- A block with one instance. The same texts describe all there is. -/
def described (brief doc : Option String) : Listing where
  name := "chip"
  defaultWidth := some 8
  brief := brief
  doc := doc
  author := brief
  note := doc
  registers := .ofList [("CH", .block ⟨"Channel", .single 0x100#64, none⟩)]
  enums := .ofList [("Rate", ⟨.ofList [("SLOW", ⟨0#64, brief, doc⟩)], brief, doc⟩)]
  blocks := .ofList [("Channel", ⟨.ofList [("CTRL", ⟨0#64, .ofList
    [("RUN", ⟨.bit 0, none, brief, doc, some (.own (.ofList [("ON", ⟨1#64, brief, doc⟩)]))⟩)],
    none, none, none, none, brief, doc⟩)], brief, doc⟩)]

def channel (brief : Option String) : Listing where
  name := "chip"
  defaultWidth := none
  brief := none
  doc := none
  author := none
  note := none
  registers := .ofList [("CH", .block ⟨"Channel", .single 0x100#64, none⟩)]
  enums := .empty
  blocks := .ofList [("Channel", ⟨.empty, brief, none⟩)]

end Listing

namespace CHeader

variable {m : RegisterMap} {s : Setting} {generator : String} {P Q R : Mode → Prop} {h h' : Header}
  {listing : Listing} {l : Layout} {ls : List String} {lead : String}

/-- With documentation and without it, C reads the header from where `P` holds to where `Q` holds,
and the same code is left of it. -/
def Header.Harmless (P : Mode → Prop) (h : Header) (Q : Mode → Prop) : Prop :=
  Agree P h.lines h.bare.lines Q

theorem Header.lines_append (h h' : Header) : lines (h ++ h') = lines h ++ lines h' :=
  List.flatMap_append

theorem Header.Legible.reads (hh : h.Legible) : ∃ code, Reads .code h.lines .code code := by
  obtain ⟨_, _, code, rfl, -, hcode, -⟩ := hh.agree .code .code rfl rfl
  exact ⟨code, hcode⟩

namespace Header.Harmless

theorem append (hh : Harmless P h Q) (hh' : Harmless Q h' R) : Harmless P (h ++ h') R := by
  unfold Harmless at *
  rw [bare_append, lines_append, lines_append]
  exact Agree.append hh hh'

theorem flatMap {α : Type} {f : α → Header} {as : List α} (hf : ∀ a ∈ as, Harmless P (f a) P) :
    Harmless P (as.flatMap f) P := by
  unfold Harmless at *
  rw [bare_flatMap, lines, lines, List.flatMap_assoc, List.flatMap_assoc]
  exact Agree.flatMap hf

theorem of_legible (hh : h.Legible) : Harmless InCode h InCode := hh.agree

theorem nil : Harmless P [] P := Agree.nil

theorem blank : Harmless Calm [.blank] InCode := agree_blank

theorem mono (hh : Harmless P h Q) {P' Q' : Mode → Prop} (hP : ∀ p, P' p → P p)
    (hQ : ∀ q, Q q → Q' q) : Harmless P' h Q' := Agree.mono hh hP hQ

theorem banner {title : String} (h : Starless title.toList) :
    Harmless Calm [.blank, .banner title] InCode :=
  blank.append (of_legible (.cons h nofun .nil))

theorem lines_comments (ls : List String) : Header.lines (ls.map .comment) = ls := by
  rw [lines, List.flatMap_map]
  exact List.flatMap_singleton' ls

theorem comments (hls : ∀ l ∈ ls, LineComment l) : Harmless Calm (ls.map .comment) Calm := by
  unfold Harmless
  rw [bare_comments, lines_comments]
  exact agree_comments hls

theorem closedComments (hls : ∀ l ∈ ls, LineComment l)
    (hend : ∀ l ∈ ls.getLast?, l.toList.getLast? ≠ some '\\') :
    Harmless InCode (ls.map .comment) InCode := by
  unfold Harmless
  rw [bare_comments, lines_comments]
  exact agree_closed_comments hls hend

end Header.Harmless

namespace MacroMap

theorem lineComment_lead : LineComment "// " := ⟨⟨[' '], rfl⟩, by decide +kernel⟩

theorem lineComment_multiLine {d : Docs} (hd : d.OnOneLine) :
    ∀ l ∈ d.multiLine "// ", LineComment l := by
  refine List.forall_mem_append.2 ⟨fun l hl => ?_, lineComment_bodyLines lineComment_lead d⟩
  obtain ⟨b, hb, rfl⟩ := Option.map_eq_some_iff.1 (Option.mem_toList.1 hl)
  exact lineComment_lead.append (hd b hb)

theorem lineComment_fieldComment {f : Field} (hname : Wordy f.name) (hdocs : f.docs.OnOneLine) :
    ∀ l ∈ fieldComment f, LineComment l := by
  have hlead : LineComment "//      " := ⟨⟨"      ".toList, rfl⟩, by decide +kernel⟩
  have htitle : LineComment s!"//  - {f.name} [{f.bits.text}]" := by
    refine ⟨⟨_, by simp; rfl⟩, fun hmem => ?_⟩
    have hstarless : Starless s!"//  - {f.name} [{f.bits.text}]".toList := by
      simp [hname.starless, starless_bitsText]
    exact (hstarless _ hmem).2.2.2.2 rfl
  refine List.forall_mem_cons.2 ⟨?_, lineComment_bodyLines hlead f.docs⟩
  cases hbrief : f.docs.brief with
  | none => exact htitle
  | some brief =>
    have hcolon : LineComment (s!"//  - {f.name} [{f.bits.text}]" ++ ": ") :=
      htitle.append (by decide +kernel)
    exact hcolon.append (hdocs brief hbrief)

theorem lineComment_layoutComment (hl : Layout.Worded l) (hdocs : l.docs.OnOneLine)
    (hfields : ∀ f ∈ l.fieldsByPosition, f.docs.OnOneLine) :
    ∀ line ∈ layoutComment l, LineComment line := by
  have htitle : LineComment "// Fields:" := ⟨⟨" Fields:".toList, rfl⟩, by decide +kernel⟩
  refine List.forall_mem_append.2 ⟨lineComment_multiLine hdocs, ?_⟩
  split
  · exact List.forall_mem_nil _
  · refine List.forall_mem_cons.2 ⟨htitle, List.forall_mem_flatMap.2 fun f hf => ?_⟩
    exact lineComment_fieldComment (hl.fields f hf) (hfields f hf)

theorem legible_defines {ds : List Define} (hds : ∀ d ∈ ds, d.Legible) :
    Item.Legible (.defines (ds.map some)) := by
  intro d hd
  obtain ⟨d, hd, heq⟩ := List.mem_map.1 hd
  cases heq
  exact hds d hd

structure BlockWorded (b : BlockTemplate) : Prop where
  name : Wordy b.name
  instances : ∀ e ∈ b.instances.entries, Starless e.1.toList
  registers : ∀ t ∈ b.registers.values, Wordy t.name

theorem legible_blockDefines {b : BlockTemplate} (hlead : Wordy lead) (hb : BlockWorded b) :
    ∀ d ∈ blockDefines lead b, d.Legible := by
  have hinstance : Wordy "_INSTANCE_" := by decide +kernel
  have hoffset : Wordy "__OFFSET" := by decide +kernel
  refine List.forall_mem_append.2 ⟨List.forall_mem_map.2 fun e he => ?_,
    List.forall_mem_map.2 fun t ht => ?_⟩
  · refine ⟨?_, by simp [hb.name.starless, hb.instances e he]⟩
    exact (((hlead.append wordy_underscore).append (.macroName _)).append hinstance).append
      (.macroName _)
  · have ht : Wordy t.name := hb.registers t (List.mem_mergeSort.1 ht)
    refine ⟨?_, by simp [hb.name.starless, ht.starless]⟩
    exact ((hlead.append wordy_underscore).append (.macroName _)).append hoffset

theorem legible_addressDefines (hlead : Wordy lead) (hl : Layout.Worded l) :
    ∀ d ∈ addressDefines lead l, d.Legible :=
  List.forall_mem_map.2 fun i hi =>
    ⟨(hlead.append wordy_underscore).append (.macroName _), by simp [(hl.instances i hi).starless]⟩

theorem legible_resetDefines {name : String} (hname : Wordy name) (hl : Layout.Worded l) :
    ∀ d ∈ resetDefines name l, d.Legible := by
  intro d hd
  obtain ⟨v, -, rfl⟩ := Option.map_eq_some_iff.1 (Option.mem_toList.1 hd)
  exact ⟨hname.append (by decide +kernel), by simp [hl.name.starless]⟩

theorem legible_alwaysWriteDefines {name : String} (hname : Wordy name) (hl : Layout.Worded l) :
    ∀ d ∈ alwaysWriteDefines name l, d.Legible := by
  unfold alwaysWriteDefines
  cases l.alwaysWrite with
  | none => exact List.forall_mem_nil _
  | some aw =>
    refine List.forall_mem_cons.2 ⟨⟨hname.append ?_, ?_⟩,
      List.forall_mem_singleton.2 ⟨hname.append ?_, ?_⟩⟩
    · decide +kernel
    · simp [hl.name.starless]
    · decide +kernel
    · simp [hl.name.starless]

theorem legible_fieldDefinesOf {name : String} (hname : Wordy name) (hl : Layout.Worded l)
    {f : Field} (hf : f ∈ l.fieldsByPosition) : ∀ d ∈ fieldDefinesOf name l f, d.Legible := by
  have hbase : Wordy (name ++ "_" ++ macroName f.name) :=
    (hname.append wordy_underscore).append (.macroName _)
  have hlayout := hl.name.starless
  have hfield := (hl.fields f hf).starless
  refine List.forall_mem_append.2 ⟨List.forall_mem_cons.2 ⟨⟨hbase.append ?_, ?_⟩,
    List.forall_mem_singleton.2 ⟨hbase.append ?_, ?_⟩⟩, ?_⟩
  · decide +kernel
  · simp [hlayout, hfield]
  · decide +kernel
  · simp [hlayout, hfield]
  · unfold entryDefines
    cases he : f.enumeration with
    | none => exact List.forall_mem_nil _
    | some e =>
      refine List.forall_mem_map.2 fun entry hentry => ⟨?_, ?_⟩
      · exact (hbase.append wordy_underscore).append (.macroName _)
      · simp [hlayout, hfield, (hl.entries f hf e he entry hentry).starless]

theorem some_mem_groupRows {groups : List (List Define)} {d : Define}
    (hd : some d ∈ groupRows groups) : ∃ group ∈ groups, d ∈ group := by
  obtain ⟨group, hgroup, hd⟩ := List.mem_flatMap.1 hd
  refine ⟨group, hgroup, ?_⟩
  split at hd
  · cases hd
  · simpa using hd

theorem legible_rowsOf (hlead : Wordy lead) (hl : Layout.Worded l) :
    Item.Legible (.defines (rowsOf lead l)) := by
  have hname : Wordy (lead ++ "_" ++ macroName l.name) :=
    (hlead.append wordy_underscore).append (.macroName _)
  have hgroups : ∀ group ∈ groupsOf lead l, ∀ d ∈ group, d.Legible :=
    List.forall_mem_cons.2 ⟨legible_resetDefines hname hl,
      List.forall_mem_cons.2 ⟨legible_alwaysWriteDefines hname hl,
        List.forall_mem_map.2 fun f hf => legible_fieldDefinesOf hname hl hf⟩⟩
  intro d hd
  rcases List.mem_append.1 hd with hd | hd
  · obtain ⟨d, hd, heq⟩ := List.mem_map.1 hd
    cases heq
    exact legible_addressDefines hlead hl d hd
  · obtain ⟨group, hgroup, hd⟩ := some_mem_groupRows hd
    exact hgroups group hgroup d hd

theorem harmless_itemsOf (hlead : Wordy lead) (hl : Layout.Worded l) (hdocs : l.docs.OnOneLine)
    (hfields : ∀ f ∈ l.fieldsByPosition, f.docs.OnOneLine) :
    Header.Harmless Calm (itemsOf lead l) Calm := by
  -- A backslash at the end of the comments on a layout reaches no further than to the empty line
  -- behind them.
  have hcalm : ∀ p, InCode p → Calm p := fun _ => .inl
  have hbanner : Header.Harmless Calm [.blank, .banner s!"{l.name} Register"] Calm :=
    (Header.Harmless.banner (by simp [hl.name.starless])).mono (fun _ => id) hcalm
  have hcomments : Header.Harmless Calm ((layoutComment l).map .comment) Calm :=
    .comments (lineComment_layoutComment hl hdocs hfields)
  unfold itemsOf
  refine (hbanner.append hcomments).append ?_
  split
  · exact .nil
  · have hdefines : Header.Legible [.defines (rowsOf lead l)] :=
      .cons (legible_rowsOf hlead hl) nofun .nil
    exact (Header.Harmless.blank.append (.of_legible hdefines)).mono (fun _ => id) hcalm

theorem harmless_blockItems {b : BlockTemplate} (hlead : Wordy lead) (hb : BlockWorded b)
    (hdocs : b.docs.OnOneLine) (hend : b.instances.isEmpty = false →
      ∀ line ∈ (b.docs.multiLine "// ").getLast?, line.toList.getLast? ≠ some '\\') :
    Header.Harmless InCode (blockItems lead b) InCode := by
  -- There is no empty line behind the comments on a block.
  have hbanner : Header.Harmless InCode [.blank, .banner s!"{b.name} Register Block"] InCode :=
    (Header.Harmless.banner (by simp [hb.name.starless])).mono (fun _ => .inl) fun _ => id
  have hdefines : Header.Legible [.defines ((blockDefines lead b).map some)] :=
    .cons (legible_defines (legible_blockDefines hlead hb)) nofun .nil
  unfold blockItems
  split
  · exact .nil
  · next hinstances =>
    have hcomments : Header.Harmless InCode ((b.docs.multiLine "// ").map .comment) InCode :=
      .closedComments (lineComment_multiLine hdocs) (hend (Bool.eq_false_iff.2 hinstances))
    exact (hbanner.append hcomments).append (.of_legible hdefines)

/-- No documentation that a header of macros shows ends the comment that it is in or takes the line
behind it along. Nothing else bounds the names of the instances of a block without registers. -/
@[mk_iff]
structure StaysInside (m : RegisterMap) : Prop where
  map : RegisterMap.StaysInside m
  blocks : ∀ b ∈ m.blocks.values, b.instances.isEmpty = false →
    ∀ line ∈ (b.docs.multiLine "// ").getLast?, line.toList.getLast? ≠ some '\\'
  instances : ∀ b ∈ m.blocks.values, b.registers.isEmpty = true →
    ∀ e ∈ b.instances.entries, Starless e.1.toList

instance : DecidablePred StaysInside := fun m => decidable_of_iff' _ (staysInside_iff m)

theorem BlockWorded.of_build {b : BlockTemplate} (h : listing.build.result = .ok m)
    (hm : StaysInside m) (hb : b ∈ m.blocks.values) : BlockWorded b := by
  have hcoherent := RegisterMap.Coherent.of_build h
  obtain ⟨k, hk⟩ := Table.mem_values_iff.1 hb
  obtain ⟨rfl, hname⟩ := hcoherent.blocks_keyed k b hk
  have hkeyed := hcoherent.templates_keyed _ b hk
  refine ⟨.of_identifier hname, fun e he => ?_, fun t ht => ?_⟩
  · cases hempty : b.registers.isEmpty with
    | true => exact hm.instances b hb hempty e he
    | false =>
      obtain ⟨⟨n, t⟩, ht⟩ := List.exists_mem_of_ne_nil _ (List.isEmpty_eq_false_iff.1 hempty)
      have ht := Table.mem_entries_iff.1 ht
      have hl : Layout.ofTemplate b t ∈ m.layouts :=
        RegisterMap.mem_layouts_iff.2 (.inr ⟨_, b, n, t, hk, ht, rfl⟩)
      have hi : ⟨e.1 ++ t.name, e.2 + t.offset⟩ ∈ (Layout.ofTemplate b t).instances :=
        Layout.mem_templateInstances_iff.2 ⟨e.1, e.2, Table.mem_entries_iff.1 he, rfl⟩
      have hwordy : Wordy (e.1 ++ t.name) := (Layout.Worded.of_build h hl).instances _ hi
      have hstarless := hwordy.starless
      rw [String.toList_append, starless_append] at hstarless
      exact hstarless.1
  · obtain ⟨n, hn⟩ := Table.mem_values_iff.1 ht
    obtain ⟨rfl, hname⟩ := hkeyed n t hn
    exact .of_identifier hname

theorem harmless_headerOf (h : listing.build.result = .ok m) (hs : Setting.Legible s)
    (hgenerator : StaysOpen (spliced generator.toList)) (hm : StaysInside m) :
    Header.Harmless InCode (headerOf m s generator) InCode := by
  have hlead : Wordy (s.config.macroLead m) := .macroName _
  have hname : Wordy m.name := .of_identifier (RegisterMap.Coherent.of_build h).name
  have hopening : Header.Harmless InCode (opening m s generator) InCode :=
    .of_legible (legible_opening hm.map hs hname hgenerator)
  have hblocks : Header.Harmless InCode
      (m.blocks.values.flatMap (blockItems (s.config.macroLead m))) InCode :=
    .flatMap fun b hb => harmless_blockItems hlead (.of_build h hm hb)
      (RegisterMap.block_docs h hb) (hm.blocks b hb)
  have hlayouts : Header.Harmless Calm
      (m.layouts.flatMap (itemsOf (s.config.macroLead m))) Calm :=
    .flatMap fun l hl => harmless_itemsOf hlead (.of_build h hl) (RegisterMap.layout_docs h hl).1
      (RegisterMap.layout_docs h hl).2
  have hclosing : Header.Harmless Calm (closing m s) InCode :=
    Header.Harmless.blank.append (.of_legible (List.forall_mem_cons.1 (legible_closing m s)).2)
  have hlayouts := hlayouts.mono (fun _ (hp : InCode _) => .inl hp) fun _ => id
  exact ((hopening.append hblocks).append hlayouts).append hclosing

theorem generate_eq (h : listing.build.result = .ok m) (s : Setting) :
    (Generator.macroMap.generate m s).result =
      .ok (unlines (headerOf m s Generator.macroMap.name).lines) := by
  simp only [Generator.generate, Generator.lines, header_eq h, Logged.result_bind,
    Logged.result_liftM]
  rfl

end MacroMap

namespace FuncPack

theorem harmless_headerOf (h : listing.build.result = .ok m) (hs : Setting.Legible s)
    (hgenerator : StaysOpen (spliced generator.toList)) (hm : StaysInside m) :
    Header.Harmless InCode (headerOf m s generator) InCode :=
  .of_legible (legible_headerOf h hs hgenerator hm)

theorem generate_eq (h : listing.build.result = .ok m) (s : Setting) :
    (Generator.funcPack.generate m s).result =
      .ok (unlines (headerOf m s Generator.funcPack.name).lines) := by
  simp only [Generator.generate, Generator.lines, header_eq h, Logged.result_bind,
    Logged.result_liftM]
  rfl

end FuncPack

theorem Header.Harmless.codeLines_eq (hh : Header.Harmless InCode h InCode) :
    codeLines (unlines h.lines) = codeLines (unlines h.bare.lines) :=
  Agree.codeLines_eq hh fun _ hq => by rw [hq]; rfl

theorem Header.Harmless.codeLines_congr (hh : Header.Harmless InCode h InCode)
    (hh' : Header.Harmless InCode h' InCode) (hbare : h.bare = h'.bare) :
    codeLines (unlines h.lines) = codeLines (unlines h'.lines) := by
  rw [hh.codeLines_eq, hbare, ← hh'.codeLines_eq]

/-- A header is made of both maps, and C reads the same code of both. -/
def SameCode (g : Generator) (m m' : RegisterMap) (s : Setting) : Prop :=
  ∃ text text', (g.generate m s).result = .ok text ∧ (g.generate m' s).result = .ok text' ∧
    codeLines text = codeLines text'

/-- Documentation has no part in the code of a header, as long as its texts stay in the comments
that they are in. -/
theorem sameCode_of_build {listing listing' : Listing} {m m' : RegisterMap} {s : Setting}
    (h : listing.build.result = .ok m) (h' : listing'.build.result = .ok m')
    (hsame : m.undocumented = m'.undocumented) (hs : Setting.Legible s) :
    (MacroMap.StaysInside m → MacroMap.StaysInside m' → SameCode .macroMap m m' s) ∧
      (FuncPack.StaysInside m → FuncPack.StaysInside m' → SameCode .funcPack m m' s) := by
  refine ⟨fun hm hm' => ?_, fun hm hm' => ?_⟩
  · have hname : StaysOpen (spliced Generator.macroMap.name.toList) := by decide +kernel
    refine ⟨_, _, MacroMap.generate_eq h s, MacroMap.generate_eq h' s, ?_⟩
    refine (MacroMap.harmless_headerOf h hs hname hm).codeLines_congr
      (MacroMap.harmless_headerOf h' hs hname hm') ?_
    rw [← MacroMap.bare_headerOf, hsame, MacroMap.bare_headerOf]
  · have hname : StaysOpen (spliced Generator.funcPack.name.toList) := by decide +kernel
    refine ⟨_, _, FuncPack.generate_eq h s, FuncPack.generate_eq h' s, ?_⟩
    refine (FuncPack.harmless_headerOf h hs hname hm).codeLines_congr
      (FuncPack.harmless_headerOf h' hs hname hm') ?_
    rw [← FuncPack.bare_headerOf, hsame, FuncPack.bare_headerOf]

theorem described_sameCode : ∃ m m',
    (Listing.described (some "On /* off // \\")
      (some "Rate in 1/s.\nSee \"C:\\rates\".")).build.result = .ok m ∧
    (Listing.described none none).build.result = .ok m' ∧
    SameCode .macroMap m m' default ∧ SameCode .funcPack m m' default := by
  have hdescribed : (Listing.described (some "On /* off // \\")
      (some "Rate in 1/s.\nSee \"C:\\rates\".")).build.result.toOption.map (fun m =>
        decide (MacroMap.StaysInside m ∧ FuncPack.StaysInside m)) = some true := by
    decide +kernel
  have hplain : (Listing.described none none).build.result.toOption.map (fun m =>
      decide (MacroMap.StaysInside m ∧ FuncPack.StaysInside m)) = some true := by
    decide +kernel
  have hsame : (Listing.described (some "On /* off // \\")
      (some "Rate in 1/s.\nSee \"C:\\rates\".")).build.result.toOption.map
        RegisterMap.undocumented =
      (Listing.described none none).build.result.toOption.map RegisterMap.undocumented := by
    decide +kernel
  obtain ⟨m, hm, hinside⟩ := Success.exists_ok hdescribed
  obtain ⟨m', hm', hinside'⟩ := Success.exists_ok hplain
  obtain ⟨hmacros, hstructs⟩ := of_decide_eq_true hinside
  obtain ⟨hmacros', hstructs'⟩ := of_decide_eq_true hinside'
  rw [hm, hm'] at hsame
  have hs : Setting.Legible default := ⟨nofun, nofun, List.forall_mem_nil _⟩
  obtain ⟨hmacroMap, hfuncPack⟩ := sameCode_of_build hm hm' (Option.some.inj hsame) hs
  exact ⟨m, m', hm, hm', hmacroMap hmacros hmacros', hfuncPack hstructs hstructs'⟩

section Channel

def channelBlock (d : Docs) : BlockTemplate := ⟨"Channel", d, .empty, .ofList [("CH", 0x100#64)]⟩

def channelMap (d : Docs) : RegisterMap where
  name := "chip"
  docs := .none
  author := none
  note := none
  defaultWidth := none
  registers := .empty
  enums := .empty
  blocks := .ofList [("Channel", channelBlock d)]

theorem channel_headerOf (d : Docs) : MacroMap.headerOf (channelMap d) default "c.macromap" =
    opening (channelMap .none) default "c.macromap" ++
      MacroMap.blockItems "CHIP" (channelBlock d) ++ closing (channelMap .none) default := by
  have hlead : macroName "chip" = "CHIP" := by decide +kernel
  have hblocks : (channelMap d).blocks.values = [channelBlock d] := rfl
  have hlayouts : (channelMap d).layouts = [] := by
    rw [RegisterMap.layouts, RegisterMap.registersByAddress, hblocks, List.flatMap_singleton,
      BlockTemplate.registersByOffset]
    change (List.filter _ (List.mergeSort [] _)).map _ ++ (List.mergeSort [] _).map _ = []
    rw [List.mergeSort_nil, List.mergeSort_nil]
    rfl
  dsimp only [MacroMap.headerOf]
  rw [hblocks, hlayouts, List.flatMap_singleton, List.flatMap_nil, List.append_nil, ← hlead]
  rfl

def channelRow : String :=
  "#define CHIP_CHANNEL_INSTANCE_CH (0x100U) //!< Start of Channel instance CH"

theorem channel_blockLines (d : Docs) : Header.lines (MacroMap.blockItems "CHIP" (channelBlock d)) =
    Header.lines [.blank, .banner "Channel Register Block"] ++
      (d.multiLine "// " ++ [channelRow]) := by
  have hrow : (Item.defines ((MacroMap.blockDefines "CHIP" (channelBlock .none)).map some)).lines =
      [channelRow] := by decide +kernel
  rw [← hrow, ← Header.Harmless.lines_comments (d.multiLine "// "), ← Item.lines_singleton]
  rw [← Header.lines_append, ← Header.lines_append]
  rfl

theorem channel_codeLines : ∃ pre post, ∀ (d : Docs) (code : List (List Char)),
    Reads .code (d.multiLine "// " ++ [channelRow]) .code code →
      codeLines (unlines (MacroMap.headerOf (channelMap d) default "c.macromap").lines) =
        pre ++ (code ++ post) := by
  have hinside : RegisterMap.StaysInside (channelMap .none) := by decide
  have hs : Setting.Legible default := ⟨nofun, nofun, List.forall_mem_nil _⟩
  have hgenerator : StaysOpen (spliced "c.macromap".toList) := by decide +kernel
  obtain ⟨first, hfirst⟩ :=
    (legible_opening hinside hs (by decide +kernel) hgenerator).reads
  obtain ⟨title, htitle⟩ : ∃ code,
      Reads .code (Header.lines [.blank, .banner "Channel Register Block"]) .code code :=
    (FuncPack.legible_banner (by simp)).reads
  obtain ⟨last, hlast⟩ := (legible_closing (channelMap .none) default).reads
  refine ⟨first ++ title, last, fun d code hblock => ?_⟩
  rw [channel_headerOf, Header.lines_append, Header.lines_append, channel_blockLines,
    ((hfirst.append (htitle.append hblock)).append hlast).codeLines_eq rfl]
  simp only [List.append_assoc]

/-- The macro for an instance is lost if the brief of its block ends in a backslash. -/
theorem channel_macro_lost : ∃ m m' text text',
    (Listing.channel (some "See C:\\")).build.result = .ok m ∧
    (Listing.channel none).build.result = .ok m' ∧ m.undocumented = m'.undocumented ∧
    (Generator.macroMap.generate m default).result = .ok text ∧
    (Generator.macroMap.generate m' default).result = .ok text' ∧
    (∃ pre post, codeLines text = pre ++ post ∧
      codeLines text' = pre ++ "#define CHIP_CHANNEL_INSTANCE_CH (0x100U)  ".toList :: post) ∧
    codeLines text ≠ codeLines text' := by
  have hbuild : (Listing.channel (some "See C:\\")).build.result.toOption.map (fun m => m) =
      some (channelMap ⟨some "See C:\\", none⟩) := by decide +kernel
  have hbuild' : (Listing.channel none).build.result.toOption.map (fun m => m) =
      some (channelMap .none) := by decide +kernel
  obtain ⟨m, hm, rfl⟩ := Success.exists_ok hbuild
  obtain ⟨m', hm', rfl⟩ := Success.exists_ok hbuild'
  obtain ⟨pre, post, hcode⟩ := channel_codeLines
  have hcomment : LineComment "// See C:\\" := ⟨⟨" See C:\\".toList, rfl⟩, by decide +kernel⟩
  have hlost : Reads .code ["// See C:\\", channelRow] .code [] :=
    (hcomment.reads_open (by decide +kernel) (.inl rfl)).append
      (reads_joined (by decide +kernel) (by decide +kernel))
  have hkept : Reads .code [channelRow] .code
      ["#define CHIP_CHANNEL_INSTANCE_CH (0x100U)  ".toList] := by
    refine ⟨"#define CHIP_CHANNEL_INSTANCE_CH (0x100U)  ".toList ++ ['\n'], ?_, .inr ⟨_, rfl⟩, ?_⟩
    · decide +kernel
    · decide +kernel
  have hcode' := hcode .none _ hkept
  have hcode := hcode ⟨some "See C:\\", none⟩ _ hlost
  refine ⟨_, _, _, _, hm, hm', rfl, MacroMap.generate_eq hm default,
    MacroMap.generate_eq hm' default, ⟨pre, post, hcode, hcode'⟩, fun heq => ?_⟩
  have hlengths := congrArg List.length (hcode.symm.trans (heq.trans hcode'))
  simp at hlengths

end Channel

end CHeader

end RegAtlas
