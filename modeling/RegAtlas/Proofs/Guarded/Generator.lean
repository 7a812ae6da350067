import RegAtlas.Generator.Basic
import RegAtlas.Proofs.Guarded.CHeader
import RegAtlas.Proofs.Guarded.Markdown
import RegAtlas.Proofs.LayoutInstances

namespace RegAtlas

open Guarded (Makes)

variable {l : Listing} {m : RegisterMap}

namespace Generator

/-- The lines that a generator makes if it takes every partial step with a guard. That there is no
dump is not a hazard. -/
def guardedLines (g : Generator) (m : RegisterMap) (s : Setting) :
    Guarded (Except GenerateError (List String)) :=
  match g with
  | macroMap => do
    let header ← CHeader.MacroMap.guardedHeader m s g.name
    header.guardedLines.map .ok
  | funcPack => do
    let header ← CHeader.FuncPack.guardedHeader m s g.name
    header.guardedLines.map .ok
  | datasheet => (Markdown.Datasheet.guardedLines m s).map .ok
  | dumpAnalysis =>
    match s.dump with
    | none => .ok (.error (.noDump g.name))
    | some d => (Markdown.DumpAnalysis.guardedLines m d).map .ok

def guardedGenerate (g : Generator) (m : RegisterMap) (s : Setting) :
    Guarded (Except GenerateError String) :=
  (g.guardedLines m s).map fun lines => lines.map unlines

end Generator

structure RegisterMap.Generates (m : RegisterMap) (s : Setting) : Prop where
  macroMap : ∃ text, (Generator.macroMap.generate m s).result = .ok text
  funcPack : ∃ text, (Generator.funcPack.generate m s).result = .ok text
  datasheet : ∃ text, (Generator.datasheet.generate m s).result = .ok text
  dumpAnalysis : (∃ text, (Generator.dumpAnalysis.generate m s).result = .ok text) ↔
    s.dump.isSome = true
  /-- With guards, every generator comes to the same, and so it stops at no hazard. -/
  guarded : ∀ g : Generator, g.guardedGenerate m s = .ok (g.generate m s).result

namespace RegisterMap

theorem layout_safe (h : l.build.result = .ok m) {layout : Layout} (hl : layout ∈ m.layouts) :
    layout.form.Safe :=
  ⟨layout_wellFormed h hl, fun _ hf => layout_field_nonempty h hl hf⟩

theorem register_safe (h : l.build.result = .ok m) {r : Register} (hr : r ∈ m.registers.values) :
    r.form.Safe := by
  obtain ⟨k, hk⟩ := Table.mem_values_iff.1 hr
  refine ⟨(WellFormed.of_build h).registers k r hk, fun f hf => ?_⟩
  obtain ⟨n, hn⟩ := Table.mem_values_iff.1 hf
  exact (((Coherent.of_build h).registers k r hk).fields n f hn).bits_nonempty

theorem addressesFit (h : l.build.result = .ok m) : m.AddressesFit := by
  obtain ⟨blocks, parts, hrun⟩ := l.resolved_of_resolve (Listing.build_ok_iff.1 h).1
  exact fun b block i start k t hb hi ht => hrun.fits hb hi ht

end RegisterMap

namespace Generator

variable {g : Generator} {s : Setting}

theorem headerLines_of_makes {guarded : Guarded CHeader.Header}
    {header : Except GenerateError CHeader.Header} (h : Makes guarded header) :
    ∃ lines, guarded.bind (fun header => header.guardedLines.map .ok) =
      (.ok (.ok lines) : Guarded (Except GenerateError (List String))) ∧
      header.map CHeader.Header.lines = .ok lines := by
  obtain ⟨header, rfl, rfl⟩ := h
  refine ⟨header.lines, ?_, rfl⟩
  change header.guardedLines.map Except.ok = _
  rw [header.guardedLines_eq]
  rfl

theorem lines_of_build (h : l.build.result = .ok m)
    (hdump : g = dumpAnalysis → s.dump.isSome = true) :
    ∃ lines, g.guardedLines m s = .ok (.ok lines) ∧ (g.lines m s).result = .ok lines := by
  have hlayouts (layout) (hl : layout ∈ m.layouts) : layout.form.Safe :=
    RegisterMap.layout_safe h hl
  have hregisters (r) (hr : r ∈ m.registers.values) : r.form.Safe :=
    RegisterMap.register_safe h hr
  cases g with
  | macroMap =>
    exact headerLines_of_makes
      (CHeader.MacroMap.makes_header (RegisterMap.addressesFit h) hlayouts s macroMap.name)
  | funcPack =>
    exact headerLines_of_makes
      (CHeader.FuncPack.makes_header (RegisterMap.addressesFit h) hlayouts s funcPack.name)
  | datasheet =>
    refine ⟨Markdown.Datasheet.lines m s, ?_, rfl⟩
    rw [guardedLines, Markdown.Datasheet.guardedLines_eq hregisters]
    rfl
  | dumpAnalysis =>
    obtain ⟨d, hd⟩ := Option.isSome_iff_exists.1 (hdump rfl)
    obtain ⟨lines, hg, hx⟩ := Markdown.DumpAnalysis.makes_lines hregisters d
    simp only [guardedLines, Generator.lines, hd, hg, hx]
    exact ⟨lines, rfl, rfl⟩

theorem generate_of_lines {lines : Except GenerateError (List String)}
    (hg : g.guardedLines m s = .ok lines) (hx : (g.lines m s).result = lines) :
    (g.generate m s).result = lines.map unlines ∧
      g.guardedGenerate m s = .ok (g.generate m s).result := by
  have hresult : (g.generate m s).result = lines.map unlines := by
    rw [generate, Logged.result_bind, hx]
    cases lines <;> rfl
  exact ⟨hresult, by rw [guardedGenerate, hg, hresult]; rfl⟩

theorem generate_of_build (h : l.build.result = .ok m)
    (hdump : g = dumpAnalysis → s.dump.isSome = true) :
    (∃ text, (g.generate m s).result = .ok text) ∧
      g.guardedGenerate m s = .ok (g.generate m s).result := by
  obtain ⟨lines, hg, hx⟩ := lines_of_build h hdump
  obtain ⟨hresult, hguarded⟩ := generate_of_lines hg hx
  exact ⟨⟨unlines lines, hresult⟩, hguarded⟩

theorem generate_of_noDump (hs : s.dump = none) :
    (dumpAnalysis.generate m s).result = .error (.noDump dumpAnalysis.name) ∧
      dumpAnalysis.guardedGenerate m s = .ok (dumpAnalysis.generate m s).result := by
  have hg : dumpAnalysis.guardedLines m s = .ok (.error (.noDump dumpAnalysis.name)) := by
    simp only [guardedLines, hs]
  have hx : (dumpAnalysis.lines m s).result = .error (.noDump dumpAnalysis.name) := by
    simp only [Generator.lines, hs, Logged.result_fail]
  exact generate_of_lines hg hx

end Generator

/-- Every generator makes a text of a built map, in any setting, if a dump is there for the one that
decodes it, and no partial step is taken where it has no value. -/
theorem Listing.generates_of_build (h : l.build.result = .ok m) (s : Setting) : m.Generates s where
  macroMap := (Generator.generate_of_build (g := .macroMap) h nofun).1
  funcPack := (Generator.generate_of_build (g := .funcPack) h nofun).1
  datasheet := (Generator.generate_of_build (g := .datasheet) h nofun).1
  dumpAnalysis := by
    cases hs : s.dump with
    | some d => exact iff_of_true (Generator.generate_of_build h fun _ => by rw [hs]; rfl).1 rfl
    | none =>
      rw [(Generator.generate_of_noDump hs).1]
      exact iff_of_false nofun nofun
  guarded g := by
    by_cases hdump : g = .dumpAnalysis → s.dump.isSome = true
    · exact (Generator.generate_of_build h hdump).2
    · obtain ⟨rfl, hs⟩ := Classical.not_imp.1 hdump
      exact (Generator.generate_of_noDump (by simpa using hs)).2

theorem Listing.chip_generates : ∃ m, Listing.chip.build.result = .ok m ∧
    m.registers.keys = ["CH0_CONTROL", "CH1_CONTROL", "STATUS"] ∧
    m.Generates ⟨none, none, .standard, some (.ofList [(0x10#64, 0x83#64), (0x11#64, 1#64)])⟩ := by
  have hkeys : Listing.chip.build.result.toOption.map (·.registers.keys) =
      some ["CH0_CONTROL", "CH1_CONTROL", "STATUS"] := by decide +kernel
  obtain ⟨m, hm, hkeys⟩ := Success.exists_ok hkeys
  exact ⟨m, hm, hkeys, Listing.generates_of_build hm _⟩

end RegAtlas
