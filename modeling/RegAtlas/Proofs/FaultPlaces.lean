import RegAtlas.Proofs.Build
import RegAtlas.Proofs.Check.FirstFlaw
import RegAtlas.Proofs.Resolve.Denotation

namespace RegAtlas

def BitError.OfRange : BitError → Prop
  | .emptyRange _ _ | .positionTooLarge _ => True
  | .notContiguous _ | .emptySet | .widthTooSmall _ _ | .shiftOverflow _ _ => False

structure Cause.OfBuilding (cause : Cause) : Prop where
  kind : cause.kind ∈ [.schema, .reference, .range, .overlap, .fit]
  bit : ∀ e, cause = .bit e → e.OfRange

inductive Section where
  | enums
  | blocks
  | registers

def Section.label : Section → String
  | enums => "enums"
  | blocks => "register_block_templates"
  | registers => "registers"

def Listing.keys (l : Listing) : Section → List String
  | .enums => l.enums.keys
  | .blocks => l.blocks.keys
  | .registers => l.registers.keys

def RegisterMap.keys (m : RegisterMap) : Section → List String
  | .enums => m.enums.keys
  | .blocks => m.blocks.keys
  | .registers => m.registers.keys

namespace Listing

def ownParts : List String := ["map_name", "brief", "doc", "default_register_bitwidth"]

/-- The places at which building the listing can fail, as they are written. -/
inductive FaultPlace (l : Listing) : String → Prop
  | own {part : String} (h : part ∈ ownParts) : FaultPlace l (l.name ++ " -> " ++ part)
  | listed {s : Section} {key : String} {inner : Breadcrumb}
      (hfails : ∀ m, l.resolve.result ≠ .ok m) (hkey : key ∈ l.keys s) :
      FaultPlace l (l.name ++ " -> " ++ s.label ++ " -> " ++ Breadcrumb.text (key :: inner))
  | built {m : RegisterMap} {s : Section} {key : String} {inner : Breadcrumb}
      (hm : l.resolve.result = .ok m) (hkey : key ∈ m.keys s) :
      FaultPlace l (l.name ++ " -> " ++ s.label ++ " -> " ++ Breadcrumb.text (key :: inner))

/-- The fault tells where in the listing it lies, and is of a kind that building can give. -/
structure Locates (l : Listing) (f : Fault) : Prop where
  place : ∃ place, f.place? = some place ∧ l.FaultPlace place.text
  kind : f.kind ∈ [.schema, .reference, .range, .overlap, .fit]
  bit : ∀ place e, f = .located place (.bit e) → e.OfRange

end Listing

theorem Breadcrumb.text_cons {name : String} {place : Breadcrumb} (h : place ≠ []) :
    Breadcrumb.text (name :: place) = name ++ " -> " ++ place.text := by
  cases place with
  | nil => exact absurd rfl h
  | cons first rest => rw [text, String.intercalate_cons_cons, text]

namespace Cause.OfBuilding

open Resolve (Addition Blamed Refused)

variable {cause : Cause}

theorem of_kind (h : cause.kind ∈ [.schema, .reference, .range, .overlap, .fit])
    (hbit : ∀ e, cause ≠ .bit e) : cause.OfBuilding := ⟨h, fun e he => absurd he (hbit e)⟩

theorem of_ofElement (h : cause.ofElement = true) : cause.OfBuilding := by
  cases cause with
  | unreadable | duplicateAddress | duplicateName | stated => cases h
  | bit e =>
    cases e with
    | emptyRange | positionTooLarge =>
      refine ⟨by simp [Cause.kind], fun _ he => ?_⟩
      cases he
      trivial
    | notContiguous | emptySet | widthTooSmall | shiftOverflow => cases h
  | _ => exact of_kind (by simp [Cause.kind]) nofun

theorem of_blockFlaw (h : Resolve.BlockFlaw cause) : cause.OfBuilding := by
  obtain h | ⟨offset, name, existing, rfl⟩ := h
  · exact of_ofElement h
  · exact of_kind (by simp [Cause.kind]) nofun

theorem of_refused {rs : List Register} {r : Register} (h : Refused rs r cause) :
    cause.OfBuilding := by
  cases h with
  | notIdentifier | nameTaken | addressTaken => exact of_kind (by simp [Cause.kind]) nofun

theorem of_blamed {blocks : Named BlockTemplate} {done : List Addition} {x : Addition}
    (h : Blamed blocks done x cause) : cause.OfBuilding := by
  cases h with
  | register h | stamped _ _ h => exact of_refused h
  | unknown | instanceTaken | overflow => exact of_kind (by simp [Cause.kind]) nofun

theorem of_firstFlaw {f : RegisterForm} {inner : Breadcrumb} (h : f.FirstFlaw inner cause) :
    cause.OfBuilding := by
  cases h with
  | noBits | tooWide => exact of_ofElement rfl
  | field _ _ _ h | alwaysWrite _ _ _ h => cases h <;> exact of_ofElement rfl
  | reset => exact of_ofElement rfl

end Cause.OfBuilding

def Fault.BuiltAt (place : Breadcrumb) (f : Fault) : Prop :=
  ∃ cause : Cause, f = .located place cause ∧ cause.OfBuilding

theorem Fault.FlawAt.builtAt {place : Breadcrumb} {f : Fault} (h : f.FlawAt place) :
    f.BuiltAt place := by
  obtain ⟨cause, rfl, hcause⟩ := h
  exact ⟨cause, rfl, .of_ofElement hcause⟩

namespace Listing

variable {l : Listing} {f : Fault}

/-- Where and why resolving the listing fails. -/
inductive ResolveFault (l : Listing) (f : Fault) : Prop
  | own {part : String} (hpart : part ∈ ownParts) (h : f.BuiltAt [l.name, part])
  | entry {key : String} (s : Section) (hkey : key ∈ l.keys s)
      (h : f.Within [l.name, s.label, key] Cause.OfBuilding)

theorem ResolveFault.of_table {α β : Type} {g : String → α → Resolve.Build β} {t : Named α}
    (s : Section) (hkeys : l.keys s = t.keys)
    (h : ∀ e ∈ t.entries, Outcome (fun _ => True)
      (Fault.Within [l.name, s.label, e.1] Cause.OfBuilding) (g e.1 e.2).result) :
    Outcome (fun _ => True) l.ResolveFault (Resolve.table g t).result :=
  Resolve.table_outcome fun e he => (h e he).mono_error fun _ hf =>
    .entry s (hkeys ▸ List.mem_map_of_mem he) hf

section Stages

variable {shared : Named Enumeration}

theorem name_faults : Outcome (fun _ => True) l.ResolveFault
    (Resolve.checkName l.name ([l.name] ++ ["map_name"])) :=
  Resolve.checkName_flaws.mono_error fun _ h => .own (by simp [ownParts]) h.builtAt

theorem docs_faults :
    Outcome (fun _ => True) l.ResolveFault (Resolve.docs l.brief l.doc [l.name]) := by
  refine Resolve.docs_flaws.mono_error fun f ⟨part, hpart, h⟩ => .own ?_ h.builtAt
  exact List.mem_cons_of_mem _ (List.mem_append_left ["default_register_bitwidth"] hpart)

theorem width_faults : Outcome (fun _ => True) l.ResolveFault (l.defaultWidth.mapM fun w =>
    Resolve.checkWidth w ([l.name] ++ ["default_register_bitwidth"])) := by
  cases l.defaultWidth with
  | none => trivial
  | some w =>
    have hcheck : Outcome (fun _ => True) l.ResolveFault
        (Resolve.checkWidth w ([l.name] ++ ["default_register_bitwidth"])) :=
      Resolve.checkWidth_flaws.mono_error fun _ h => .own (by simp [ownParts]) h.builtAt
    exact hcheck.map fun _ _ => trivial

theorem enums_faults : Outcome (fun _ => True) l.ResolveFault (Resolve.table (fun name spec =>
    liftM (Resolve.sharedEnum ([l.name] ++ ["enums"]) name spec)) l.enums).result :=
  ResolveFault.of_table .enums rfl fun _ _ =>
    Resolve.sharedEnum_elementary.mono_error fun _ h => h.mono fun _ => .of_ofElement

theorem blocks_faults : Outcome (fun _ => True) l.ResolveFault (Resolve.table
    (Resolve.block ⟨l.defaultWidth, shared⟩ ([l.name] ++ ["register_block_templates"]))
      l.blocks).result :=
  ResolveFault.of_table .blocks rfl fun _ _ =>
    Resolve.block_flaws.mono_error fun _ h => h.mono fun _ => .of_blockFlaw

theorem entries_faults {blocks : Named BlockTemplate} {a : Resolve.Assembly}
    (hm : Resolve.Assembly.Made blocks [] a) :
    Outcome (fun _ => True) l.ResolveFault (l.registers.entries.foldlM
      (Resolve.entry ⟨l.defaultWidth, shared⟩ ([l.name] ++ ["registers"])) a).result := by
  refine (Resolve.entries_outcome hm).mono (fun _ _ _ => trivial) ?_
  rintro f - ⟨before, e, after, parts, hes, -, hstuck⟩
  have hkey : e.1 ∈ l.keys .registers := List.mem_map_of_mem (by simp [hes])
  refine .entry .registers hkey ?_
  cases hstuck with
  | flaw _ hf => exact hf.mono fun _ => .of_ofElement
  | blamed _ _ hf => exact hf.mono fun _ => .of_blamed

end Stages

theorem resolve_faults (l : Listing) :
    Outcome (fun m => m.name = l.name) l.ResolveFault l.resolve.result := by
  simp only [resolve, Logged.result_bind, Logged.result_liftM, Logged.result_report,
    Logged.result_pure]
  refine name_faults.bind fun _ _ _ => docs_faults.bind fun docs _ _ => ?_
  refine width_faults.bind fun width _ _ => enums_faults.bind fun enums _ _ => ?_
  refine Outcome.bind (P := fun _ => True) trivial fun _ _ _ => ?_
  refine blocks_faults.bind fun blocks hblocks _ => ?_
  exact (entries_faults (Resolve.Assembly.Made.start_of_table hblocks)).bind fun _ _ _ => rfl

theorem check_faults {m : RegisterMap} (h : m.check.result = .error f) :
    ∃ s key, key ∈ m.keys s ∧ f.Within [m.name, Section.label s, key] Cause.OfBuilding := by
  cases RegisterMap.firstFlaw_of_check h with
  | @address before after k existing r other a hregisters =>
    have hkey : k ∈ m.keys .registers := List.mem_map.2 ⟨(k, r), by simp [hregisters], rfl⟩
    exact ⟨.registers, k, hkey, [], _, rfl, .of_kind (by simp [Cause.kind]) nofun⟩
  | @register before after k r inner cause hregisters _ _ hflaw =>
    have hkey : k ∈ m.keys .registers := List.mem_map.2 ⟨(k, r), by simp [hregisters], rfl⟩
    exact ⟨.registers, k, hkey, inner, cause, rfl, .of_firstFlaw hflaw⟩
  | @template before after pre post b k block t inner cause _ hblocks _ _ _ hflaw =>
    have hkey : b ∈ m.keys .blocks := List.mem_map.2 ⟨(b, block), by simp [hblocks], rfl⟩
    exact ⟨.blocks, b, hkey, ["registers", k] ++ inner, cause, rfl, .of_firstFlaw hflaw⟩

theorem locates_of_place {place : Breadcrumb} {cause : Cause} (hplace : l.FaultPlace place.text)
    (hcause : cause.OfBuilding) : l.Locates (.located place cause) := by
  refine ⟨⟨place, rfl, hplace⟩, hcause.kind, ?_⟩
  rintro _ e he
  cases he
  exact hcause.bit e rfl

theorem locates_of_within {s : Section} {key : String}
    (hplace : ∀ inner, l.FaultPlace
      (l.name ++ " -> " ++ s.label ++ " -> " ++ Breadcrumb.text (key :: inner)))
    (h : f.Within [l.name, s.label, key] Cause.OfBuilding) : l.Locates f := by
  obtain ⟨inner, cause, rfl, hcause⟩ := h
  have htext : Breadcrumb.text ([l.name, s.label, key] ++ inner) =
      l.name ++ " -> " ++ s.label ++ " -> " ++ Breadcrumb.text (key :: inner) := by
    change Breadcrumb.text (l.name :: s.label :: key :: inner) = _
    rw [Breadcrumb.text_cons (List.cons_ne_nil _ _), Breadcrumb.text_cons (List.cons_ne_nil _ _)]
    simp only [String.append_assoc]
  exact locates_of_place (htext ▸ hplace inner) hcause

/-- When building a listing fails, the fault tells where it lies: in a part that the listing has
once, or in an entry that is there. Of the operations on bits only those can fail that make a range
or a set. -/
theorem locates_of_build (h : l.build.result = .error f) : l.Locates f := by
  have houtcome := l.resolve_faults
  obtain h | ⟨m, hm, h⟩ := build_error_iff.1 h
  · rw [h] at houtcome
    have hfails : ∀ m, l.resolve.result ≠ .ok m := fun m hm => by cases hm.symm.trans h
    cases houtcome with
    | own hpart hf =>
      obtain ⟨cause, rfl, hcause⟩ := hf
      refine locates_of_place ?_ hcause
      rw [Breadcrumb.text_cons (List.cons_ne_nil _ _)]
      exact .own hpart
    | entry s hkey hf => exact locates_of_within (fun _ => .listed hfails hkey) hf
  · rw [hm] at houtcome
    have hname : m.name = l.name := houtcome
    obtain ⟨s, key, hkey, hf⟩ := check_faults h
    rw [hname] at hf
    exact locates_of_within (fun _ => .built hm hkey) hf

theorem crowdedChip_located : ∃ f, crowdedChip.build.result = .error f ∧ crowdedChip.Locates f := by
  have herror : crowdedChip.build.result = .error (.located ["chip", "registers", "SPARE"]
      (.duplicateAddress 0x104#64 "SPARE" "CH0_CONTROL")) := by decide +kernel
  exact ⟨_, herror, locates_of_build herror⟩

end Listing

end RegAtlas
