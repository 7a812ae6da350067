import RegAtlas.Proofs.CHeader.Legible
import RegAtlas.Proofs.CHeader.Names

namespace RegAtlas

namespace Listing

def oneBit (place : Nat) : FieldSpec := ⟨.bit place, none, none, none, none⟩

/-- Case alone tells the fields of `GATE` apart, and keeps that of `MODE` from being a keyword. -/
def gates : Listing := ofRegisters .empty <| .ofList
  [("GATE", registerAt 0x10#64 (.ofList [("EN", oneBit 0), ("en", oneBit 1)])),
    ("MODE", registerAt 0x14#64 (.ofList [("AUTO", oneBit 0)]))]

end Listing

namespace CHeader

/-- The words that C keeps for itself, in its edition of 2011. -/
def keywords : List String := [
  "auto", "break", "case", "char", "const", "continue", "default", "do", "double", "else", "enum",
  "extern", "float", "for", "goto", "if", "inline", "int", "long", "register", "restrict", "return",
  "short", "signed", "sizeof", "static", "struct", "switch", "typedef", "union", "unsigned", "void",
  "volatile", "while", "_Alignas", "_Alignof", "_Atomic", "_Bool", "_Complex", "_Generic",
  "_Imaginary", "_Noreturn", "_Static_assert", "_Thread_local"]

def StructDecl.names (d : StructDecl) : List String := d.members.map Member.name

/-- The members can be told apart, and none has a name that is a keyword. -/
structure StructDecl.Legal (d : StructDecl) : Prop where
  distinct : d.names.Nodup
  free : ∀ name ∈ d.names, name ∉ keywords

def Item.structs : Item → List StructDecl
  | struct decl => [decl]
  | _ => []

def Header.structs (h : Header) : List StructDecl := h.flatMap Item.structs

theorem Item.structs_eq_nil {item : Item} (h : item.isDeclaration = false) : item.structs = [] := by
  cases item <;> first | rfl | cases h

section Spelling

variable {a : String} {c : Char}

theorem isLetter_iff : IsLetter c ↔
    97 ≤ c.toNat ∧ c.toNat ≤ 122 ∨ 65 ≤ c.toNat ∧ c.toNat ≤ 90 := Iff.rfl

theorem isLetter_toLower (h : IsLetter c) : IsLetter c.toLower := by
  rw [isLetter_iff] at h ⊢
  rw [toNat_toLower]
  split_ifs <;> omega

theorem toLower_of_not_isLetter (h : ¬IsLetter c) : c.toLower = c := by
  rw [isLetter_iff] at h
  rw [← Char.toNat_inj, toNat_toLower]
  split_ifs <;> omega

theorem Wordy.toList_codeName (h : Wordy a) :
    (CHeader.codeName a).toList = a.toList.map Char.toLower := by
  rw [CHeader.toList_codeName]
  refine List.map_congr_left fun c hc => ?_
  rw [sanitizeChar, if_pos (h c hc)]

theorem codeName_codeName (a : String) : codeName (codeName a) = codeName a := by
  rw [String.ext_iff, (Wordy.codeName a).toList_codeName, toList_codeName, List.map_map]
  exact List.map_congr_left fun c _ => toLower_toLower _

theorem identifier_codeName (h : Identifier a) : Identifier (codeName a) := by
  have hlist := (Wordy.of_identifier h).toList_codeName
  obtain ⟨c, cs, ha, hc, hcs⟩ := h
  have hlower {d : Char} (hd : IsLetter d ∨ IsDigit d ∨ d = '_') :
      IsLetter d.toLower ∨ IsDigit d.toLower ∨ d.toLower = '_' := by
    by_cases hletter : IsLetter d
    · exact .inl (isLetter_toLower hletter)
    · rwa [toLower_of_not_isLetter hletter]
  refine ⟨c.toLower, cs.map Char.toLower, by rw [hlist, ha, List.map_cons], ?_, ?_⟩
  · rcases hc with hc | rfl
    · exact .inl (isLetter_toLower hc)
    · exact .inr rfl
  · exact List.forall_mem_map.2 fun d hd => hlower (hcs d hd)

theorem codeName_mem_keywords_iff :
    codeName a ∈ keywords ↔ ∃ word ∈ keywords, codeName word = word ∧ Alike a word := by
  -- A keyword with a capital in it is no name in lower case.
  constructor
  · intro h
    exact ⟨_, h, codeName_codeName a, codeName_eq_iff.1 (codeName_codeName a).symm⟩
  · rintro ⟨word, hword, hcode, halike⟩
    rwa [codeName_eq_iff.2 halike, hcode]

/-- More than case tells the names apart from each other and from all keywords that a name in lower
case can be. -/
structure Spelled (names : List String) : Prop where
  apart : names.Pairwise (¬Alike · ·)
  free : ∀ a ∈ names, ∀ word ∈ keywords, codeName word = word → ¬Alike a word

instance (names : List String) : Decidable (Spelled names) :=
  decidable_of_iff (names.Pairwise (¬Alike · ·) ∧
      ∀ a ∈ names, ∀ word ∈ keywords, codeName word = word → ¬Alike a word)
    ⟨fun h => ⟨h.1, h.2⟩, fun h => ⟨h.apart, h.free⟩⟩

theorem StructDecl.legal_iff {d : StructDecl} {names : List String}
    (h : d.names = names.map codeName) : d.Legal ↔ Spelled names := by
  have hdistinct : d.names.Nodup ↔ names.Pairwise (¬Alike · ·) := by
    simp only [h, List.Nodup, List.pairwise_map, ne_eq, codeName_eq_iff]
  have hfree : (∀ name ∈ d.names, name ∉ keywords) ↔
      ∀ a ∈ names, ∀ word ∈ keywords, codeName word = word → ¬Alike a word := by
    simp only [h, List.forall_mem_map, codeName_mem_keywords_iff, not_exists, not_and]
  exact ⟨fun h => ⟨hdistinct.1 h.distinct, hfree.1 h.free⟩,
    fun h => ⟨hdistinct.2 h.apart, hfree.2 h.free⟩⟩

end Spelling

namespace FuncPack

variable {m : RegisterMap} {s : Setting} {generator : String} {n : Naming} {bitFields : Bool}
  {l : Layout}

def structOf (n : Naming) (bitFields : Bool) (l : Layout) : StructDecl :=
  ⟨n.structTag l, l.docs, l.fieldsByPosition.map (memberOf n bitFields l)⟩

def fieldNames (l : Layout) : List String := l.fieldsByPosition.map (·.name)

theorem names_structOf : (structOf n bitFields l).names = (fieldNames l).map codeName := by
  simp [structOf, StructDecl.names, fieldNames, memberOf]

theorem headerOf_structs : (headerOf m s generator).structs =
    (packedLayouts m).map (structOf (.of m s.config) s.config.bitFields) := by
  have hstruct (l : Layout) : (structItemsOf (.of m s.config) s.config.bitFields l).flatMap
      Item.structs = [structOf (.of m s.config) s.config.bitFields l] := by
    simp [structItemsOf, Item.structs, codec, structOf]
  have hv (item : Item) := item.structs_eq_nil
  rw [Header.structs, flatMap_headerOf hv, List.map_eq_flatMap, flatMap_packedLayouts]
  simp [flatMap_itemsOf hv, hstruct, flatMap_dispatchItems hv fun _ => rfl, Item.structs,
    flatMap_nothing]

/-- The struct has a member for each field of the layout, and when it is legal. -/
structure StructFor (l : Layout) (d : StructDecl) : Prop where
  names : d.names = (fieldNames l).map codeName
  identifiers : ∀ name ∈ d.names, Identifier name
  legal_iff : d.Legal ↔ Spelled (fieldNames l)

theorem structFor (hm : m.Coherent) (hl : l ∈ m.layouts) :
    StructFor l (structOf n bitFields l) where
  names := names_structOf
  identifiers := by
    rw [names_structOf, fieldNames, List.map_map]
    exact List.forall_mem_map.2 fun f hf => identifier_codeName (hm.layout_field hl hf).1
  legal_iff := StructDecl.legal_iff names_structOf

/-- A header has a struct for each layout with fields. Its members are identifiers, and it is legal
exactly if the fields of the layout are told apart, from each other and from keywords, by more than
the case of their letters. -/
theorem structs_of_build {listing : Listing} (h : listing.build.result = .ok m) (s : Setting)
    (generator : String) : ∃ header, FuncPack.header m s generator = .ok header ∧
      List.Forall₂ StructFor (packedLayouts m) header.structs ∧
      ((∀ d ∈ header.structs, d.Legal) ↔ ∀ l ∈ packedLayouts m, Spelled (fieldNames l)) := by
  have hm := RegisterMap.Coherent.of_build h
  refine ⟨_, header_eq h s generator, ?_, ?_⟩
  · rw [headerOf_structs, List.forall₂_map_right_iff, List.forall₂_same]
    exact fun l hl => structFor hm (List.mem_of_mem_filter hl)
  · rw [headerOf_structs, List.forall_mem_map]
    exact forall₂_congr fun _ _ => StructDecl.legal_iff names_structOf

theorem valve_structs : ∃ m header, Listing.valve.build.result = .ok m ∧
    FuncPack.header m default "c.funcpack" = .ok header ∧
    (packedLayouts m).map fieldNames = [["VALVE"]] ∧
    List.Forall₂ StructFor (packedLayouts m) header.structs ∧
    ∀ d ∈ header.structs, d.Legal := by
  have hnames : (packedLayouts .valve).map fieldNames = [["VALVE"]] := by
    rw [packedLayouts_valve, List.map_singleton, fieldNames, Register.valve_fieldsByPosition]
    rfl
  obtain ⟨header, hheader, hstructs, hlegal⟩ :=
    structs_of_build RegisterMap.build_valve default "c.funcpack"
  refine ⟨_, header, RegisterMap.build_valve, hheader, hnames, hstructs, hlegal.2 ?_⟩
  rw [← List.forall_mem_map (P := Spelled), hnames]
  decide +kernel

theorem exists_struct {r : Register} {k : String} (hr : m.registers.get? k = some r)
    (horigin : r.origin = none) (hfields : r.fields.isEmpty = false) :
    ∃ d ∈ (headerOf m s generator).structs,
      d.names.Perm ((r.fields.values.map (·.name)).map codeName) := by
  have hl : Layout.ofRegister r ∈ packedLayouts m :=
    List.mem_filter.2 ⟨RegisterMap.mem_layouts_iff.2 (.inl ⟨k, r, hr, horigin, rfl⟩),
      congrArg not hfields⟩
  refine ⟨structOf (.of m s.config) s.config.bitFields (.ofRegister r), ?_, ?_⟩
  · rw [headerOf_structs]
    exact List.mem_map_of_mem hl
  · rw [names_structOf]
    exact ((List.mergeSort_perm _ _).map _).map _

theorem gates_illegal : ∃ m header gate mode, Listing.gates.build.result = .ok m ∧
    FuncPack.header m default "c.funcpack" = .ok header ∧
    gate ∈ header.structs ∧ gate.names = ["en", "en"] ∧ ¬gate.Legal ∧
    mode ∈ header.structs ∧ mode.names = ["auto"] ∧ ¬mode.Legal := by
  have hparts : Listing.gates.build.result.toOption.map (fun m =>
      ["GATE", "MODE"].map fun k => (m.registers.get? k).map fun r =>
        (r.origin, r.fields.isEmpty, (r.fields.values.map (·.name)).map codeName)) =
      some [some (none, false, ["en", "en"]), some (none, false, ["auto"])] := by decide +kernel
  obtain ⟨m, hm, hparts⟩ := Success.exists_ok hparts
  simp only [List.map_cons, List.map_nil, List.cons.injEq, Option.map_eq_some_iff,
    Prod.mk.injEq] at hparts
  obtain ⟨⟨r, hr, horigin, hfields, hen⟩, ⟨r', hr', horigin', hfields', hauto⟩, -⟩ := hparts
  obtain ⟨gate, hgate, hnames⟩ := exists_struct hr horigin hfields
  obtain ⟨mode, hmode, hnames'⟩ := exists_struct hr' horigin' hfields'
  rw [hen] at hnames
  rw [hauto] at hnames'
  have hgate_names : gate.names = ["en", "en"] := (List.perm_replicate (n := 2)).1 hnames
  have hmode_names : mode.names = ["auto"] := List.perm_singleton.1 hnames'
  have hgate_illegal : ¬gate.Legal := fun h => absurd (hgate_names ▸ h.distinct) (by decide)
  have hmode_illegal : ¬mode.Legal := fun h => absurd (hmode_names ▸ h.free) (by decide)
  exact ⟨m, _, gate, mode, hm, header_eq hm default "c.funcpack", hgate, hgate_names,
    hgate_illegal, hmode, hmode_names, hmode_illegal⟩

end FuncPack

end CHeader

end RegAtlas
