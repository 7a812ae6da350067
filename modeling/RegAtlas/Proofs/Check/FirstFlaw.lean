import RegAtlas.Proofs.Check.WellFormed

namespace RegAtlas

open Check (Apart AtOtherAddress)

/-- The value has a one where the mask has none. -/
def Word.Exceeds (v mask : Word) : Prop := ∃ i, v.getLsbD i = true ∧ mask.getLsbD i = false

/-- `outside` holds the members from `width` on, and there is one. -/
structure BitSet.Outside (s : BitSet) (width : Nat) (outside : BitSet) : Prop where
  mem_iff : ∀ i, i ∈ outside ↔ i ∈ s ∧ width ≤ i
  nonempty : ∃ i, i ∈ outside

/-- `b` is the lowest member that one of the fields has too, and `owner` is a field that has it. -/
structure BitSet.LowestShared (s : BitSet) (fs : List Field) (owner : Field) (b : Nat) : Prop where
  mem : b ∈ s
  owner_mem : owner ∈ fs
  owned : b ∈ owner.bits
  lowest : ∀ c ∈ s, c < b → ∀ f ∈ fs, c ∉ f.bits

/-- What is checked of the fields of a register. -/
structure Field.AllSound (width : Nat) (fs : List Field) : Prop where
  inside : ∀ f ∈ fs, ∀ i ∈ f.bits, i < width
  entries_fit : ∀ f ∈ fs, ∀ e, f.enumeration = some e →
    ∀ k entry, e.entries.get? k = some entry → f.Holds entry.value
  apart : fs.Pairwise Apart

/-- The first flaw of a field that comes after the fields `before`, and where it lies in the
field. -/
inductive Field.FirstFlaw (width : Nat) (before : List Field) (f : Field) :
    Breadcrumb → Cause → Prop
  | outside {s : BitSet} (h : f.bits.Outside width s) :
      FirstFlaw width before f ["bits"] (.outsideRegister s width)
  | overlap {other : Field} {b : Nat} (hin : ∀ i ∈ f.bits, i < width)
      (h : f.bits.LowestShared before other b) :
      FirstFlaw width before f ["bits"] (.fieldsOverlap other.name f.name b)
  | entry {e : Enumeration} {entry : EnumEntry} {pre post : List EnumEntry}
      (hin : ∀ i ∈ f.bits, i < width) (hfree : ∀ g ∈ before, Apart f g)
      (he : f.enumeration = some e) (hentries : e.entries.values = pre ++ entry :: post)
      (hpre : ∀ x ∈ pre, f.Holds x.value) (h : entry.value.Exceeds f.unpositionedMask) :
      FirstFlaw width before f ["enum", entry.name]
        (.entryOutsideField entry.value e.name f.unpositionedMask)

structure AlwaysWrite.Sound (width : Nat) (fs : List Field) (aw : AlwaysWrite) : Prop where
  inside : ∀ i ∈ aw.bits, i < width
  free : ∀ i ∈ aw.bits, ∀ f ∈ fs, i ∉ f.bits
  fits : ∀ i, aw.value.getLsbD i = true → i ∈ aw.bits

inductive AlwaysWrite.FirstFlaw (width : Nat) (fs : List Field) (aw : AlwaysWrite) : Cause → Prop
  | outside {s : BitSet} (h : aw.bits.Outside width s) :
      FirstFlaw width fs aw (.outsideRegister s width)
  | overlap {owner : Field} {b : Nat} (hin : ∀ i ∈ aw.bits, i < width)
      (h : aw.bits.LowestShared fs owner b) :
      FirstFlaw width fs aw (.alwaysWriteOverlap owner.name b)
  | value (hin : ∀ i ∈ aw.bits, i < width) (hfree : ∀ i ∈ aw.bits, ∀ f ∈ fs, i ∉ f.bits)
      (h : aw.value.Exceeds aw.bits.mask) :
      FirstFlaw width fs aw (.alwaysWriteOutsideMask aw.value aw.bits.mask)

/-- The first flaw of a register, and where it lies in the register. Its fields come first, in the
order of their names. -/
inductive RegisterForm.FirstFlaw (f : RegisterForm) : Breadcrumb → Cause → Prop
  | noBits (h : f.width = 0) : FirstFlaw f [] (.bit (.emptyRange 0 f.width))
  | tooWide (h : wordSize < f.width) :
      FirstFlaw f [] (.bit (.positionTooLarge (min (f.width - 1) maxPosition)))
  | field {before after : List Field} {g : Field} {inner : Breadcrumb} {cause : Cause}
      (hwidth : 1 ≤ f.width ∧ f.width ≤ wordSize) (hfields : f.fields.values = before ++ g :: after)
      (hbefore : Field.AllSound f.width before) (h : g.FirstFlaw f.width before inner cause) :
      FirstFlaw f (["fields", g.name] ++ inner) cause
  | alwaysWrite {aw : AlwaysWrite} {cause : Cause} (hwidth : 1 ≤ f.width ∧ f.width ≤ wordSize)
      (hfields : Field.AllSound f.width f.fields.values) (haw : f.alwaysWrite = some aw)
      (h : aw.FirstFlaw f.width f.fields.values cause) : FirstFlaw f ["always_write"] cause
  | reset {v : Word} (hwidth : 1 ≤ f.width ∧ f.width ≤ wordSize)
      (hfields : Field.AllSound f.width f.fields.values)
      (haw : ∀ aw, f.alwaysWrite = some aw → aw.Sound f.width f.fields.values)
      (hv : f.resetValue = some v) (h : 2 ^ f.width ≤ v.toNat) :
      FirstFlaw f ["reset_val"] (.resetTooWide v f.width)

/-- What is checked of the registers of a map. -/
structure Register.AllSound (rs : List (String × Register)) : Prop where
  wellFormed : ∀ e ∈ rs, e.2.form.WellFormed
  apart : rs.Pairwise AtOtherAddress

/-- The first flaw of a map: in its registers, or else in its templates, each in the order of their
names. -/
inductive RegisterMap.FirstFlaw (m : RegisterMap) : Fault → Prop
  | address {before after : List (String × Register)} {k existing : String} {r other : Register}
      {a : Word} (hregisters : m.registers.entries = before ++ (k, r) :: after)
      (hbefore : Register.AllSound before) (ha : r.address = some a)
      (hother : (existing, other) ∈ before) (ha' : other.address = some a) :
      FirstFlaw m (.located [m.name, "registers", k] (.duplicateAddress a k existing))
  | register {before after : List (String × Register)} {k : String} {r : Register}
      {inner : Breadcrumb} {cause : Cause}
      (hregisters : m.registers.entries = before ++ (k, r) :: after)
      (hbefore : Register.AllSound before) (hapart : ∀ e ∈ before, AtOtherAddress (k, r) e)
      (h : r.form.FirstFlaw inner cause) :
      FirstFlaw m (.located ([m.name, "registers", k] ++ inner) cause)
  | template {before after : List (String × BlockTemplate)}
      {pre post : List (String × TemplateRegister)} {b k : String} {block : BlockTemplate}
      {t : TemplateRegister} {inner : Breadcrumb} {cause : Cause}
      (hregisters : Register.AllSound m.registers.entries)
      (hblocks : m.blocks.entries = before ++ (b, block) :: after)
      (hbefore : ∀ e ∈ before, ∀ k t, e.2.registers.get? k = some t → t.form.WellFormed)
      (htemplates : block.registers.entries = pre ++ (k, t) :: post)
      (hpre : ∀ x ∈ pre, x.2.form.WellFormed) (h : t.form.FirstFlaw inner cause) :
      FirstFlaw m
        (.located ([m.name, "register_block_templates", b, "registers", k] ++ inner) cause)

namespace Check

variable {place inner : Breadcrumb} {all bits s : BitSet} {width b : Nat} {cause : Cause}
  {fault : Fault} {f : Field} {fs before : List Field}

theorem within_eq_false_iff {v mask : Word} : v.within mask = false ↔ v.Exceeds mask := by
  rw [← Bool.not_eq_true, Word.within_iff]
  simp [Word.Exceeds]

theorem require_error_iff {ok : Bool} :
    (require ok place cause).result = .error fault ↔ ok = false ∧ fault = .located place cause := by
  cases ok <;> simp [require, refuse, accept, eq_comm]

theorem inside_error_iff (hall : ∀ i, i ∈ all ↔ i < width) :
    (inside bits all width place).result = .error fault ↔
      ∃ s, bits.Outside width s ∧ fault = .located place (.outsideRegister s width) := by
  have hdiff (i : Nat) : i ∈ bits.diff all ↔ i ∈ bits ∧ width ≤ i := by
    rw [BitSet.mem_diff, hall, not_lt]
  rw [inside, require_error_iff, ← Bool.not_eq_true, BitSet.isEmpty_iff, not_forall_not]
  constructor
  · rintro ⟨hne, rfl⟩
    exact ⟨bits.diff all, ⟨hdiff, hne⟩, rfl⟩
  · rintro ⟨s, ⟨hmem, hne⟩, rfl⟩
    have hs : s = bits.diff all := BitSet.ext_mem fun i => (hmem i).trans (hdiff i).symm
    exact ⟨hs ▸ hne, by rw [hs]⟩

theorem find?_eq_some_iff_of_unique {α : Type} {p : α → Bool} {xs : List α} {x : α}
    (hone : xs.Pairwise fun x y => p x = true → ¬p y = true) :
    xs.find? p = some x ↔ x ∈ xs ∧ p x = true := by
  refine ⟨fun h => ⟨List.mem_of_find?_eq_some h, List.find?_some h⟩, fun ⟨hx, hp⟩ => ?_⟩
  obtain ⟨pre, post, rfl⟩ := List.append_of_mem hx
  have hpre : ∀ y ∈ pre, ¬p y = true := fun y hy hpy =>
    (List.pairwise_append.1 hone).2.2 y hy x List.mem_cons_self hpy hp
  rw [List.find?_append, List.find?_eq_none.2 hpre, List.find?_cons_of_pos hp, Option.none_or]

theorem owned_error_iff {report : Field → Nat → Fault} (hapart : fs.Pairwise Apart) :
    owned fs report b = .error fault ↔ ∃ owner ∈ fs, b ∈ owner.bits ∧ fault = report owner b := by
  -- Among fields that share no bit the owner of a bit is the only one.
  have hsome (owner : Field) : fs.find? (·.bits.contains b) = some owner ↔
      owner ∈ fs ∧ b ∈ owner.bits := by
    rw [find?_eq_some_iff_of_unique, BitSet.contains_iff]
    exact hapart.imp fun h => by simpa only [BitSet.contains_iff] using h b
  simp only [← and_assoc, ← hsome, owned]
  cases fs.find? (·.bits.contains b) <;> simp [eq_comm]

theorem forM_owned_error_iff {report : Field → Nat → Fault} (hapart : fs.Pairwise Apart) :
    s.positions.forM (owned fs report) = .error fault ↔
      ∃ owner b, s.LowestShared fs owner b ∧ fault = report owner b := by
  simp only [Success.forM_eq_error, owned_ok_iff, owned_error_iff hapart]
  constructor
  · rintro ⟨pre, b, post, hs, hpre, owner, howner, hb, rfl⟩
    have hmem : b ∈ s := by simp [BitSet.mem_def, hs]
    refine ⟨owner, b, ⟨hmem, howner, hb, fun c hc hlt => hpre c ?_⟩, rfl⟩
    have hsorted := s.ascending
    rw [BitSet.mem_def, hs, List.mem_append, List.mem_cons] at hc
    rw [hs, List.pairwise_append, List.pairwise_cons] at hsorted
    rcases hc with hc | rfl | hc
    · exact hc
    · exact absurd hlt (lt_irrefl c)
    · exact absurd hlt (lt_asymm (hsorted.2.1.1 c hc))
  · rintro ⟨owner, b, ⟨hmem, howner, hb, hlowest⟩, rfl⟩
    obtain ⟨pre, post, hs⟩ := List.append_of_mem hmem
    have hsorted := s.ascending
    rw [hs, List.pairwise_append] at hsorted
    refine ⟨pre, b, post, hs, fun c hc => hlowest c ?_ ?_, owner, howner, hb, rfl⟩
    · simp [BitSet.mem_def, hs, hc]
    · exact hsorted.2.2 c hc b List.mem_cons_self

theorem freeBits_error_iff {name : String} (hapart : before.Pairwise Apart) :
    (freeBits place before name s.positions).result = .error fault ↔
      ∃ other b, s.LowestShared before other b ∧
        fault = .located (place ++ ["bits"]) (.fieldsOverlap other.name name b) := by
  rw [result_freeBits, forM_owned_error_iff hapart]

theorem unowned_error_iff (hapart : fs.Pairwise Apart) :
    (unowned place fs s.positions).result = .error fault ↔
      ∃ owner b, s.LowestShared fs owner b ∧
        fault = .located place (.alwaysWriteOverlap owner.name b) := by
  rw [result_unowned, forM_owned_error_iff hapart]

theorem elim_error_iff {α : Type} {o : Option α} {step : α → Checked} :
    (o.elim accept step).result = .error fault ↔
      ∃ a, o = some a ∧ (step a).result = .error fault := by
  cases o <;> simp [accept]

theorem enumeration_error_iff :
    (enumeration place f).result = .error fault ↔ ∃ e pre entry post, f.enumeration = some e ∧
      e.entries.values = pre ++ entry :: post ∧ (∀ x ∈ pre, f.Holds x.value) ∧
      entry.value.Exceeds f.unpositionedMask ∧
      fault = .located (place ++ ["enum", entry.name])
        (.entryOutsideField entry.value e.name f.unpositionedMask) := by
  simp only [enumeration_eq, elim_error_iff, Logged.result_forM, Success.forM_eq_error, entry,
    require_ok_iff, require_error_iff, holds_iff, within_eq_false_iff, exists_and_left]

theorem field_error_iff (hall : ∀ i, i ∈ all ↔ i < width) (hapart : before.Pairwise Apart) :
    (field place all width before f).result = .error fault ↔
      ∃ inner cause, f.FirstFlaw width before inner cause ∧
        fault = .located (place ++ ["fields", f.name] ++ inner) cause := by
  simp only [field, Logged.seq_eq_error, inside_error_iff hall, inside_ok_iff,
    freeBits_error_iff hapart, freeBits_ok_iff, enumeration_error_iff, hall]
  constructor
  · rintro (⟨s, hs, rfl⟩ | ⟨hin, ⟨other, b, hb, rfl⟩ | ⟨hfree, e, pre, entry, post, he, hentries,
      hpre, hentry, rfl⟩⟩)
    · exact ⟨_, _, .outside hs, rfl⟩
    · exact ⟨_, _, .overlap hin hb, rfl⟩
    · exact ⟨_, _, .entry hin (fun g hg i hi => hfree i hi g hg) he hentries hpre hentry, rfl⟩
  · rintro ⟨inner, cause, hflaw, rfl⟩
    cases hflaw with
    | outside hs => exact .inl ⟨_, hs, rfl⟩
    | overlap hin hb => exact .inr ⟨hin, .inl ⟨_, _, hb, rfl⟩⟩
    | entry hin hfree he hentries hpre hentry =>
      exact .inr ⟨hin, .inr ⟨fun i hi g hg => hfree g hg i hi, _, _, _, _, he, hentries, hpre,
        hentry, rfl⟩⟩

theorem fields_ok_iff_allSound (hall : ∀ i, i ∈ all ↔ i < width) :
    (fields place all width [] fs).result = .ok () ↔ Field.AllSound width fs := by
  simp only [fields_ok_iff, Sound, hall]
  constructor
  · rintro ⟨hsound, -, hapart⟩
    exact ⟨fun f hf => (hsound f hf).1, fun f hf => (hsound f hf).2, hapart⟩
  · rintro ⟨hin, hfit, hapart⟩
    exact ⟨fun f hf => ⟨hin f hf, hfit f hf⟩, fun _ _ _ hg => absurd hg List.not_mem_nil, hapart⟩

theorem firstFlaw_of_mem_iff {before' : List Field} (hmem : ∀ g, g ∈ before ↔ g ∈ before')
    (h : f.FirstFlaw width before inner cause) : f.FirstFlaw width before' inner cause := by
  cases h with
  | outside hs => exact .outside hs
  | overlap hin hb =>
    exact .overlap hin ⟨hb.mem, (hmem _).1 hb.owner_mem, hb.owned, fun c hc hlt g hg =>
      hb.lowest c hc hlt g ((hmem g).2 hg)⟩
  | entry hin hfree he hentries hpre hentry =>
    exact .entry hin (fun g hg => hfree g ((hmem g).2 hg)) he hentries hpre hentry

theorem fields_error_iff (hall : ∀ i, i ∈ all ↔ i < width) :
    (fields place all width [] fs).result = .error fault ↔
      ∃ before f after inner cause, fs = before ++ f :: after ∧ Field.AllSound width before ∧
        f.FirstFlaw width before inner cause ∧
        fault = .located (place ++ ["fields", f.name] ++ inner) cause := by
  rw [Success.visit_eq_error (fun earlier fs => (fields place all width earlier fs).result)
    (fun earlier f => (field place all width earlier f).result) (fun _ => rfl)
    (fun _ _ _ => Logged.result_bind _ _)]
  simp only [fields_ok_iff_allSound hall, List.append_nil]
  -- The fields visited are kept with the last one first.
  have hfield {before : List Field} (hbefore : Field.AllSound width before) (f : Field) :
      (field place all width before.reverse f).result = .error fault ↔ _ :=
    field_error_iff hall (List.pairwise_reverse.2 (hbefore.apart.imp fun h => Std.Symm.symm _ _ h))
  constructor
  · rintro ⟨before, f, after, hfs, hbefore, h⟩
    obtain ⟨inner, cause, hflaw, rfl⟩ := (hfield hbefore f).1 h
    exact ⟨before, f, after, inner, cause, hfs, hbefore,
      firstFlaw_of_mem_iff (fun _ => List.mem_reverse) hflaw, rfl⟩
  · rintro ⟨before, f, after, inner, cause, hfs, hbefore, hflaw, rfl⟩
    exact ⟨before, f, after, hfs, hbefore, (hfield hbefore f).2 ⟨inner, cause,
      firstFlaw_of_mem_iff (fun _ => List.mem_reverse.symm) hflaw, rfl⟩⟩

theorem alwaysWrite_ok_iff_sound {aw : AlwaysWrite} (hall : ∀ i, i ∈ all ↔ i < width) :
    (alwaysWrite place all width fs aw).result = .ok () ↔ aw.Sound width fs := by
  simp only [alwaysWrite_ok_iff, hall]
  exact ⟨fun ⟨hin, hfree, hfits⟩ => ⟨hin, hfree, hfits⟩,
    fun ⟨hin, hfree, hfits⟩ => ⟨hin, hfree, hfits⟩⟩

theorem alwaysWrite_error_iff {aw : AlwaysWrite} (hall : ∀ i, i ∈ all ↔ i < width)
    (hapart : fs.Pairwise Apart) :
    (alwaysWrite place all width fs aw).result = .error fault ↔
      ∃ cause, aw.FirstFlaw width fs cause ∧ fault = .located place cause := by
  simp only [alwaysWrite, Logged.seq_eq_error, inside_error_iff hall, inside_ok_iff,
    unowned_error_iff hapart, unowned_ok_iff, require_error_iff, within_eq_false_iff, hall]
  constructor
  · rintro (⟨s, hs, rfl⟩ | ⟨hin, ⟨owner, b, hb, rfl⟩ | ⟨hfree, hvalue, rfl⟩⟩)
    · exact ⟨_, .outside hs, rfl⟩
    · exact ⟨_, .overlap hin hb, rfl⟩
    · exact ⟨_, .value hin hfree hvalue, rfl⟩
  · rintro ⟨cause, hflaw, rfl⟩
    cases hflaw with
    | outside hs => exact .inl ⟨_, hs, rfl⟩
    | overlap hin hb => exact .inr ⟨hin, .inl ⟨_, _, hb, rfl⟩⟩
    | value hin hfree hvalue => exact .inr ⟨hin, .inr ⟨hfree, hvalue, rfl⟩⟩

theorem address_error_iff {earlier : List (String × Register)} {name : String} {r : Register}
    (hapart : earlier.Pairwise AtOtherAddress) :
    (address place earlier name r).result = .error fault ↔
      ∃ a e, r.address = some a ∧ e ∈ earlier ∧ e.2.address = some a ∧
        fault = .located place (.duplicateAddress a name e.1) := by
  -- Among registers at different addresses an address is that of one of them at most.
  have hsome (a : Word) (e : String × Register) :
      earlier.find? (fun e => e.2.address == some a) = some e ↔
        e ∈ earlier ∧ e.2.address = some a := by
    rw [find?_eq_some_iff_of_unique, beq_iff_eq]
    exact hapart.imp fun h => by simpa only [beq_iff_eq] using h a
  unfold address
  cases r.address with
  | none => simp [accept]
  | some a =>
    trans ∃ e, earlier.find? (fun e => e.2.address == some a) = some e ∧
      fault = .located place (.duplicateAddress a name e.1)
    · cases hf : earlier.find? fun e => e.2.address == some a with
      | none => simp [accept, hf]
      | some e => simp only [hf, refuse, Logged.result_fail, Option.some.injEq, Except.error.injEq,
          exists_eq_left', eq_comm]
    · simp only [hsome, and_assoc, Option.some.injEq, exists_and_left, exists_eq_left']

theorem form_error_iff_parts {f : RegisterForm} (hspan : BitSet.ofSpan 0 f.width = .ok all) :
    (form place f).result = .error fault ↔
      (fields place all f.width [] f.fields.values).result = .error fault ∨
      (fields place all f.width [] f.fields.values).result = .ok () ∧
      ((∃ aw, f.alwaysWrite = some aw ∧ (alwaysWrite (place ++ ["always_write"]) all f.width
          f.fields.values aw).result = .error fault) ∨
        (∀ aw, f.alwaysWrite = some aw → (alwaysWrite (place ++ ["always_write"]) all f.width
          f.fields.values aw).result = .ok ()) ∧
        ∃ v, f.resetValue = some v ∧ (require (v.fits f.width) (place ++ ["reset_val"])
          (.resetTooWide v f.width)).result = .error fault) := by
  rw [form_eq, Logged.result_bind, Logged.result_liftM, hspan]
  refine Logged.seq_eq_error.trans ?_
  simp only [Logged.seq_eq_error, elim_error_iff, elim_ok_iff]

theorem form_error_iff_of_span {f : RegisterForm} (hspan : BitSet.ofSpan 0 f.width = .ok all) :
    (form place f).result = .error fault ↔
      ∃ inner cause, f.FirstFlaw inner cause ∧ fault = .located (place ++ inner) cause := by
  obtain ⟨hpos, hle, hall⟩ := BitSet.ofSpan_zero_eq_ok_iff.1 hspan
  have hwidth : 1 ≤ f.width ∧ f.width ≤ wordSize := ⟨hpos, hle⟩
  rw [form_error_iff_parts hspan, fields_error_iff hall, fields_ok_iff_allSound hall]
  constructor
  · rintro (h | ⟨hfields, haw | ⟨haw, hv⟩⟩)
    · obtain ⟨before, g, after, inner, cause, hfields, hbefore, hflaw, rfl⟩ := h
      exact ⟨_, _, .field hwidth hfields hbefore hflaw, by simp⟩
    · obtain ⟨aw, haw, h⟩ := haw
      obtain ⟨cause, hflaw, rfl⟩ := (alwaysWrite_error_iff hall hfields.apart).1 h
      exact ⟨_, _, .alwaysWrite hwidth hfields haw hflaw, rfl⟩
    · obtain ⟨v, hv, h⟩ := hv
      simp only [alwaysWrite_ok_iff_sound hall] at haw
      obtain ⟨hfits, rfl⟩ := require_error_iff.1 h
      rw [← Bool.not_eq_true, Word.fits_iff, not_lt] at hfits
      exact ⟨_, _, .reset hwidth hfields haw hv hfits, rfl⟩
  · rintro ⟨inner, cause, hflaw, rfl⟩
    cases hflaw with
    | noBits h => omega
    | tooWide h => omega
    | field _ hfields hbefore hflaw =>
      exact .inl ⟨_, _, _, _, _, hfields, hbefore, hflaw, by simp⟩
    | alwaysWrite _ hfields haw hflaw =>
      exact .inr ⟨hfields, .inl ⟨_, haw,
        (alwaysWrite_error_iff hall hfields.apart).2 ⟨_, hflaw, rfl⟩⟩⟩
    | reset _ hfields haw hv h =>
      refine .inr ⟨hfields, .inr ⟨fun aw h => (alwaysWrite_ok_iff_sound hall).2 (haw aw h), _, hv,
        require_error_iff.2 ⟨?_, rfl⟩⟩⟩
      rw [← Bool.not_eq_true, Word.fits_iff, not_lt]
      exact h

theorem form_error_iff_of_no_span {f : RegisterForm} {e : BitError}
    (hspan : BitSet.ofSpan 0 f.width = .error e) :
    (form place f).result = .error fault ↔
      ∃ inner cause, f.FirstFlaw inner cause ∧ fault = .located (place ++ inner) cause := by
  have hflaw (inner : Breadcrumb) (cause : Cause) :
      f.FirstFlaw inner cause ↔ inner = [] ∧ cause = .bit e := by
    obtain ⟨hzero, rfl⟩ | ⟨hlt, rfl⟩ := BitSet.ofSpan_zero_eq_error_iff.1 hspan
    · constructor
      · intro h
        cases h with
        | noBits => exact ⟨rfl, rfl⟩
        | _ => omega
      · rintro ⟨rfl, rfl⟩
        exact .noBits hzero
    · constructor
      · intro h
        cases h with
        | tooWide => exact ⟨rfl, rfl⟩
        | _ => omega
      · rintro ⟨rfl, rfl⟩
        exact .tooWide hlt
  have hform : (form place f).result = .error (.located place (.bit e)) := by
    rw [form, Logged.result_bind, hspan]
    rfl
  simp [hform, hflaw, eq_comm]

theorem form_error_iff {f : RegisterForm} :
    (form place f).result = .error fault ↔
      ∃ inner cause, f.FirstFlaw inner cause ∧ fault = .located (place ++ inner) cause := by
  cases hspan : BitSet.ofSpan 0 f.width with
  | ok all => exact form_error_iff_of_span hspan
  | error e => exact form_error_iff_of_no_span hspan

example :
    let field (name : String) (ps : List Nat) : Field :=
      ⟨name, .ofPositions ps, [], ⟨none, none⟩, none⟩
    (form ["STATUS"] ⟨8, .ofList [("MODE", field "MODE" [2, 4, 5]),
        ("LEVEL", field "LEVEL" [0, 4, 5])], none, none⟩).result =
      .error (.located ["STATUS", "fields", "MODE", "bits"] (.fieldsOverlap "LEVEL" "MODE" 4)) := by
  decide +kernel

theorem registers_ok_iff_allSound {rs : List (String × Register)} :
    (registers place [] rs).result = .ok () ↔ Register.AllSound rs := by
  simp only [registers_ok_iff]
  exact ⟨fun ⟨hforms, _, hapart⟩ => ⟨hforms, hapart⟩, fun ⟨hforms, hapart⟩ =>
    ⟨hforms, fun _ _ _ he => absurd he List.not_mem_nil, hapart⟩⟩

theorem registers_error_iff {rs : List (String × Register)} :
    (registers place [] rs).result = .error fault ↔
      ∃ before k r after, rs = before ++ (k, r) :: after ∧ Register.AllSound before ∧
        ((∃ a e, r.address = some a ∧ e ∈ before ∧ e.2.address = some a ∧
            fault = .located (place ++ [k]) (.duplicateAddress a k e.1)) ∨
          (∀ e ∈ before, AtOtherAddress (k, r) e) ∧ ∃ inner cause, r.form.FirstFlaw inner cause ∧
            fault = .located (place ++ [k] ++ inner) cause) := by
  have hstep {before : List (String × Register)} (hbefore : Register.AllSound before) (k : String)
      (r : Register) : (address (place ++ [k]) before.reverse k r >>= fun _ =>
        form (place ++ [k]) r.form).result = .error fault ↔ _ :=
    Logged.seq_eq_error.trans (or_congr
      (address_error_iff (List.pairwise_reverse.2 (hbefore.apart.imp fun h => Std.Symm.symm _ _ h)))
      (and_congr address_ok_iff form_error_iff))
  rw [Success.visit_eq_error (fun earlier rs => (registers place earlier rs).result)
    (fun earlier e => (address (place ++ [e.1]) earlier e.1 e.2 >>= fun _ =>
      form (place ++ [e.1]) e.2.form).result) (fun _ => rfl)
    (fun _ _ _ => by rw [← Logged.result_bind, bind_assoc]; rfl)]
  simp only [registers_ok_iff_allSound, List.append_nil, Prod.exists]
  constructor
  · rintro ⟨before, k, r, after, hrs, hbefore, h⟩
    refine ⟨before, k, r, after, hrs, hbefore, ?_⟩
    obtain ⟨a, e, ha, he, ha', rfl⟩ | ⟨hapart, hform⟩ := (hstep hbefore k r).1 h
    · exact .inl ⟨a, e.1, e.2, ha, List.mem_reverse.1 he, ha', rfl⟩
    · exact .inr ⟨fun e he a ha => hapart a ha e (List.mem_reverse.2 he), hform⟩
  · rintro ⟨before, k, r, after, hrs, hbefore, h⟩
    refine ⟨before, k, r, after, hrs, hbefore, (hstep hbefore k r).2 ?_⟩
    obtain ⟨a, k', r', ha, he, ha', rfl⟩ | ⟨hapart, hform⟩ := h
    · exact .inl ⟨a, (k', r'), ha, List.mem_reverse.2 he, ha', rfl⟩
    · exact .inr ⟨fun a ha e he => hapart e (List.mem_reverse.1 he) a ha, hform⟩

theorem block_error_iff {b : String × BlockTemplate} :
    (block place b).result = .error fault ↔
      ∃ pre k t post inner cause, b.2.registers.entries = pre ++ (k, t) :: post ∧
        (∀ x ∈ pre, x.2.form.WellFormed) ∧ t.form.FirstFlaw inner cause ∧
        fault = .located (place ++ [b.1, "registers", k] ++ inner) cause := by
  simp only [block, Logged.result_forM, Success.forM_eq_error, form_ok_iff, form_error_iff,
    Prod.exists, exists_and_left]

end Check

namespace RegisterMap

variable {m : RegisterMap} {fault : Fault}

theorem check_error_iff_parts :
    m.check.result = .error fault ↔
      (Check.registers [m.name, "registers"] [] m.registers.entries).result = .error fault ∨
        (Check.registers [m.name, "registers"] [] m.registers.entries).result = .ok () ∧
          ∃ before b after, m.blocks.entries = before ++ b :: after ∧
            (∀ x ∈ before, (Check.block [m.name, "register_block_templates"] x).result = .ok ()) ∧
              (Check.block [m.name, "register_block_templates"] b).result = .error fault := by
  rw [check, Logged.seq_eq_error, Logged.seq_eq_error, Logged.result_forM, Success.forM_eq_error]
  simp

theorem firstFlaw_of_check (h : m.check.result = .error fault) : m.FirstFlaw fault := by
  obtain hregisters | ⟨hregisters, before, ⟨b, block⟩, after, hblocks, hbefore, hblock⟩ :=
    check_error_iff_parts.1 h
  · obtain ⟨before, k, r, after, hentries, hbefore, h⟩ := Check.registers_error_iff.1 hregisters
    obtain ⟨a, e, ha, he, ha', rfl⟩ | ⟨hapart, inner, cause, hflaw, rfl⟩ := h
    · exact .address hentries hbefore ha he ha'
    · exact .register hentries hbefore hapart hflaw
  · obtain ⟨pre, k, t, post, inner, cause, htemplates, hpre, hflaw, rfl⟩ :=
      Check.block_error_iff.1 hblock
    simp only [Check.block_ok_iff] at hbefore
    exact .template (Check.registers_ok_iff_allSound.1 hregisters) hblocks hbefore htemplates hpre
      hflaw

theorem check_of_firstFlaw (h : m.FirstFlaw fault) : m.check.result = .error fault := by
  rw [check_error_iff_parts]
  cases h with
  | address hregisters hbefore ha hother ha' =>
    exact .inl (Check.registers_error_iff.2 ⟨_, _, _, _, hregisters, hbefore,
      .inl ⟨_, _, ha, hother, ha', rfl⟩⟩)
  | register hregisters hbefore hapart h =>
    exact .inl (Check.registers_error_iff.2 ⟨_, _, _, _, hregisters, hbefore,
      .inr ⟨hapart, _, _, h, rfl⟩⟩)
  | template hregisters hblocks hbefore htemplates hpre h =>
    refine .inr ⟨Check.registers_ok_iff_allSound.2 hregisters, _, _, _, hblocks, ?_,
      Check.block_error_iff.2 ⟨_, _, _, _, _, _, htemplates, hpre, h, rfl⟩⟩
    simpa only [Check.block_ok_iff] using hbefore

/-- What checking reports is the first flaw of the map, and a map with a first flaw is reported for
it. -/
theorem check_error_iff_firstFlaw (m : RegisterMap) (fault : Fault) :
    m.check.result = .error fault ↔ m.FirstFlaw fault :=
  ⟨firstFlaw_of_check, check_of_firstFlaw⟩

end RegisterMap

end RegAtlas
