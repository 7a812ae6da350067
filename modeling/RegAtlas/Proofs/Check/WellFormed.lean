import RegAtlas.Check
import RegAtlas.Proofs.BitSet.Mask
import RegAtlas.Proofs.Outcome
import RegAtlas.Proofs.Table.Entries

namespace RegAtlas

/-- The ones of the value are positions of the field, counted from the lowest one. -/
def Field.Holds (f : Field) (v : Word) : Prop :=
  ∀ i, v.getLsbD i = true → ∃ l ∈ f.bits, (∀ j ∈ f.bits, l ≤ j) ∧ i + l ∈ f.bits

structure RegisterForm.WellFormed (f : RegisterForm) : Prop where
  width_pos : 1 ≤ f.width
  width_le : f.width ≤ wordSize
  fields_inside : ∀ n a, f.fields.get? n = some a → ∀ i ∈ a.bits, i < f.width
  fields_disjoint : ∀ n n' a b, f.fields.get? n = some a → f.fields.get? n' = some b → n ≠ n' →
    ∀ i ∈ a.bits, i ∉ b.bits
  entries_fit : ∀ n a, f.fields.get? n = some a → ∀ e, a.enumeration = some e →
    ∀ k entry, e.entries.get? k = some entry → a.Holds entry.value
  alwaysWrite_inside : ∀ aw, f.alwaysWrite = some aw → ∀ i ∈ aw.bits, i < f.width
  alwaysWrite_free : ∀ aw n a, f.alwaysWrite = some aw → f.fields.get? n = some a →
    ∀ i ∈ aw.bits, i ∉ a.bits
  alwaysWrite_fits : ∀ aw, f.alwaysWrite = some aw → ∀ i, aw.value.getLsbD i = true → i ∈ aw.bits
  reset_fits : ∀ v, f.resetValue = some v → v.toNat < 2 ^ f.width

namespace RegisterForm.WellFormed

variable {f : RegisterForm} {a b : Field} {aw : AlwaysWrite} {i : Nat}

theorem fields_pairwise (h : f.WellFormed) :
    f.fields.values.Pairwise fun a b => ∀ i ∈ a.bits, i ∉ b.bits := by
  have : Std.Symm fun a b : Field => ∀ i ∈ a.bits, i ∉ b.bits := ⟨fun _ _ h i hi hj => h i hj hi⟩
  exact Table.pairwise_values_iff.2 fun k k' a b => h.fields_disjoint k k' a b

theorem bit_lt (h : f.WellFormed) (ha : a ∈ f.fields.values) (hi : i ∈ a.bits) : i < f.width := by
  obtain ⟨k, hk⟩ := Table.mem_values_iff.1 ha
  exact h.fields_inside k a hk i hi

theorem bit_free (h : f.WellFormed) (haw : f.alwaysWrite = some aw) (ha : a ∈ f.fields.values)
    (hi : i ∈ aw.bits) : i ∉ a.bits := by
  obtain ⟨k, hk⟩ := Table.mem_values_iff.1 ha
  exact h.alwaysWrite_free aw k a haw hk i hi

theorem field_unique (h : f.WellFormed) (ha : a ∈ f.fields.values) (hb : b ∈ f.fields.values)
    (hia : i ∈ a.bits) (hib : i ∈ b.bits) : a = b := by
  obtain ⟨k, hk⟩ := Table.mem_values_iff.1 ha
  obtain ⟨k', hk'⟩ := Table.mem_values_iff.1 hb
  by_cases hkk : k = k'
  · subst hkk
    exact Option.some.inj (hk.symm.trans hk')
  · exact absurd hib (h.fields_disjoint k k' a b hk hk' hkk i hia)

end RegisterForm.WellFormed

structure RegisterMap.WellFormed (m : RegisterMap) : Prop where
  addresses_distinct : ∀ n n' r r' a, m.registers.get? n = some r → m.registers.get? n' = some r' →
    r.address = some a → r'.address = some a → n = n'
  registers : ∀ n r, m.registers.get? n = some r → r.form.WellFormed
  templates : ∀ n b k t, m.blocks.get? n = some b → b.registers.get? k = some t → t.form.WellFormed

namespace RegisterMap.WellFormed

variable {m : RegisterMap} {r r' : Register} {a : Word}

theorem eq_of_address (hm : m.WellFormed) (hr : r ∈ m.registers.values)
    (hr' : r' ∈ m.registers.values) (ha : r.address = some a) (ha' : r'.address = some a) :
    r = r' := by
  obtain ⟨k, hk⟩ := Table.mem_values_iff.1 hr
  obtain ⟨k', hk'⟩ := Table.mem_values_iff.1 hr'
  cases hm.addresses_distinct k k' r r' a hk hk' ha ha'
  exact Option.some.inj (hk.symm.trans hk')

theorem registerAt_eq_some_iff (hm : m.WellFormed) :
    m.registerAt a = some r ↔ r ∈ m.registers.values ∧ r.address = some a := by
  have hfound {r : Register} (h : m.registerAt a = some r) :
      r ∈ m.registers.values ∧ r.address = some a :=
    ⟨List.mem_of_find?_eq_some h, by simpa using List.find?_some h⟩
  refine ⟨hfound, fun ⟨hr, ha⟩ => ?_⟩
  cases h : m.registerAt a with
  | none => exact absurd ha (by simpa using List.find?_eq_none.1 h r hr)
  | some r' => rw [hm.eq_of_address (hfound h).1 hr (hfound h).2 ha]

end RegisterMap.WellFormed

namespace Check

variable {place : Breadcrumb} {all : BitSet} {width b : Nat} {fs earlier : List Field}

@[simp] theorem require_ok_iff {ok : Bool} {cause : Cause} :
    (require ok place cause).result = .ok () ↔ ok = true := by
  cases ok <;> simp [require, refuse, accept]

theorem elim_ok_iff {α : Type} {o : Option α} {step : α → Checked} :
    (o.elim accept step).result = .ok () ↔ ∀ a, o = some a → (step a).result = .ok () := by
  cases o <;> simp [accept]

theorem enumeration_eq (place : Breadcrumb) (f : Field) : enumeration place f =
    f.enumeration.elim accept fun e => e.entries.values.forM (entry place f e) := by
  unfold enumeration
  cases f.enumeration <;> rfl

theorem form_eq (place : Breadcrumb) (f : RegisterForm) : form place f = (do
    let all ← liftM ((BitSet.ofSpan 0 f.width).mapError fun e => Fault.located place (.bit e))
    fields place all f.width [] f.fields.values
    f.alwaysWrite.elim accept
      (alwaysWrite (place ++ ["always_write"]) all f.width f.fields.values)
    f.resetValue.elim accept fun v =>
      require (v.fits f.width) (place ++ ["reset_val"]) (.resetTooWide v f.width)) := by
  unfold form
  cases f.alwaysWrite <;> cases f.resetValue <;> rfl

theorem inside_ok_iff {bits : BitSet} :
    (inside bits all width place).result = .ok () ↔ ∀ i ∈ bits, i ∈ all := by
  rw [inside, require_ok_iff, BitSet.isEmpty_diff_iff]

def owned (fs : List Field) (report : Field → Nat → Fault) (b : Nat) : Except Fault Unit :=
  match fs.find? (·.bits.contains b) with
  | some owner => .error (report owner b)
  | none => .ok ()

theorem owned_ok_iff {report : Field → Nat → Fault} :
    owned fs report b = .ok () ↔ ∀ f ∈ fs, b ∉ f.bits := by
  have hnone : fs.find? (·.bits.contains b) = none ↔ ∀ f ∈ fs, b ∉ f.bits := by simp
  rw [← hnone, owned]
  cases fs.find? (·.bits.contains b) <;> simp

theorem result_freeBits {name : String} {bs : List Nat} :
    (freeBits place earlier name bs).result = bs.forM (owned earlier fun other b =>
      .located (place ++ ["bits"]) (.fieldsOverlap other.name name b)) := by
  induction bs with
  | nil => rfl
  | cons b bs ih =>
    rw [freeBits, Logged.result_bind, Logged.result_report]
    change _ = (owned earlier _ b).bind fun _ => bs.forM _
    rw [← ih, owned]
    cases earlier.find? (·.bits.contains b) <;> rfl

theorem result_unowned {bs : List Nat} :
    (unowned place fs bs).result = bs.forM (owned fs fun owner b =>
      .located place (.alwaysWriteOverlap owner.name b)) := by
  induction bs with
  | nil => rfl
  | cons b bs ih =>
    change _ = (owned fs _ b).bind fun _ => bs.forM _
    rw [← ih, unowned, owned]
    cases fs.find? (·.bits.contains b) <;> rfl

theorem freeBits_ok_iff {name : String} {bs : List Nat} :
    (freeBits place earlier name bs).result = .ok () ↔
      ∀ b ∈ bs, ∀ f ∈ earlier, b ∉ f.bits := by
  simp only [result_freeBits, Success.forM_eq_ok, owned_ok_iff]

theorem unowned_ok_iff {bs : List Nat} :
    (unowned place fs bs).result = .ok () ↔ ∀ b ∈ bs, ∀ f ∈ fs, b ∉ f.bits := by
  simp only [result_unowned, Success.forM_eq_ok, owned_ok_iff]

theorem holds_iff {f : Field} {v : Word} : v.within f.unpositionedMask = true ↔ f.Holds v := by
  apply BitSet.within_mask_iff.trans
  apply forall_congr'
  intro i
  apply imp_congr_right
  intro _
  simp only [BitSet.mem_unpositioned, BitSet.lsb?_eq_some_iff, and_assoc]

theorem enumeration_ok_iff {f : Field} :
    (enumeration place f).result = .ok () ↔
      ∀ e, f.enumeration = some e → ∀ k entry, e.entries.get? k = some entry →
        f.Holds entry.value := by
  simp only [enumeration_eq, elim_ok_iff, Logged.result_forM, Success.forM_eq_ok, entry,
    require_ok_iff, holds_iff, Table.forall_values_iff]

/-- What a field is checked for on its own. -/
def Sound (all : BitSet) (f : Field) : Prop :=
  (∀ i ∈ f.bits, i ∈ all) ∧
    ∀ e, f.enumeration = some e → ∀ k entry, e.entries.get? k = some entry → f.Holds entry.value

def Apart (f g : Field) : Prop := ∀ i ∈ f.bits, i ∉ g.bits

instance : Std.Symm Apart := ⟨fun _ _ h i hg hf => h i hf hg⟩

theorem field_ok_iff {f : Field} :
    (field place all width earlier f).result = .ok () ↔
      Sound all f ∧ ∀ g ∈ earlier, Apart f g := by
  simp only [field, Logged.seq_eq_ok, inside_ok_iff, freeBits_ok_iff, enumeration_ok_iff]
  constructor
  · rintro ⟨hin, hfree, henum⟩
    exact ⟨⟨hin, henum⟩, fun g hg i hi => hfree i hi g hg⟩
  · rintro ⟨⟨hin, henum⟩, hapart⟩
    exact ⟨hin, fun i hi g hg => hapart g hg i hi, henum⟩

theorem fields_ok_iff :
    (fields place all width earlier fs).result = .ok () ↔
      (∀ f ∈ fs, Sound all f) ∧ (∀ f ∈ fs, ∀ g ∈ earlier, Apart f g) ∧ fs.Pairwise Apart := by
  -- Each field is compared with those before, and so any two are compared once.
  induction fs generalizing earlier with
  | nil => simp [fields, accept]
  | cons f fs ih =>
    simp only [fields, Logged.seq_eq_ok, field_ok_iff, ih, List.forall_mem_cons,
      List.pairwise_cons]
    constructor
    · rintro ⟨⟨hf, hfe⟩, hfs, hfse, hpair⟩
      exact ⟨⟨hf, hfs⟩, ⟨hfe, fun g hg => (hfse g hg).2⟩,
        fun g hg => Std.Symm.symm _ _ (hfse g hg).1, hpair⟩
    · rintro ⟨⟨hf, hfs⟩, ⟨hfe, hfse⟩, hffs, hpair⟩
      exact ⟨⟨hf, hfe⟩, hfs, fun g hg => ⟨Std.Symm.symm _ _ (hffs g hg), hfse g hg⟩, hpair⟩

theorem alwaysWrite_ok_iff {aw : AlwaysWrite} :
    (alwaysWrite place all width fs aw).result = .ok () ↔
      (∀ i ∈ aw.bits, i ∈ all) ∧ (∀ i ∈ aw.bits, ∀ f ∈ fs, i ∉ f.bits) ∧
        ∀ i, aw.value.getLsbD i = true → i ∈ aw.bits := by
  simp only [alwaysWrite, Logged.seq_eq_ok, inside_ok_iff, unowned_ok_iff, require_ok_iff,
    BitSet.within_mask_iff]
  rfl

theorem require_outcome {E : Fault → Prop} {ok : Bool} {cause : Cause}
    (h : ok = false → E (.located place cause)) :
    Outcome (fun _ => True) E (require ok place cause).result := by
  cases ok with
  | true => trivial
  | false => exact h rfl

theorem unowned_outcome {E : Fault → Prop} {fs : List Field}
    (h : ∀ owner b, E (.located place (.alwaysWriteOverlap owner b))) (bs : List Nat) :
    Outcome (fun _ => True) E (unowned place fs bs).result := by
  induction bs with
  | nil => trivial
  | cons b bs ih =>
    unfold unowned
    split
    · exact h _ b
    · exact ih

theorem alwaysWrite_within {fs : List Field} {aw : AlwaysWrite}
    (h : aw.value.within aw.bits.mask = true) :
    Outcome (fun _ => True) (fun f => ∀ other v m, f ≠ .located other (.alwaysWriteOutsideMask v m))
      (alwaysWrite place all width fs aw).result := by
  simp only [alwaysWrite, Logged.result_bind]
  refine (require_outcome fun _ _ _ _ => nofun).bind fun _ _ _ => ?_
  refine (unowned_outcome (fun _ _ _ _ _ => nofun) _).bind fun _ _ _ => ?_
  exact require_outcome fun hnot => absurd h (Bool.eq_false_iff.1 hnot)

theorem form_ok_iff_parts {f : RegisterForm} :
    (form place f).result = .ok () ↔
      ∃ all, BitSet.ofSpan 0 f.width = .ok all ∧
        (fields place all f.width [] f.fields.values).result = .ok () ∧
        (∀ aw, f.alwaysWrite = some aw →
          (alwaysWrite (place ++ ["always_write"]) all f.width f.fields.values aw).result =
            .ok ()) ∧
        ∀ v, f.resetValue = some v → v.fits f.width = true := by
  rw [form_eq, Logged.result_bind, Logged.result_liftM, Success.bind_eq_ok]
  simp only [Success.mapError_eq_ok, Logged.seq_eq_ok, elim_ok_iff, require_ok_iff]

theorem form_ok_iff {f : RegisterForm} : (form place f).result = .ok () ↔ f.WellFormed := by
  rw [form_ok_iff_parts]
  simp only [fields_ok_iff, alwaysWrite_ok_iff, Word.fits_iff, BitSet.ofSpan_zero_eq_ok_iff,
    Table.forall_values_iff, Table.pairwise_values_iff, Sound, Apart]
  constructor
  · rintro ⟨all, ⟨hpos, hle, hall⟩, ⟨hsound, -, hapart⟩, haw, hreset⟩
    exact {
      width_pos := hpos
      width_le := hle
      fields_inside := fun n a ha i hi => (hall i).1 ((hsound n a ha).1 i hi)
      fields_disjoint := hapart
      entries_fit := fun n a ha => (hsound n a ha).2
      alwaysWrite_inside := fun aw h i hi => (hall i).1 ((haw aw h).1 i hi)
      alwaysWrite_free := fun aw n a h ha i hi => (haw aw h).2.1 i hi n a ha
      alwaysWrite_fits := fun aw h => (haw aw h).2.2
      reset_fits := hreset }
  · intro h
    have hall (i : Nat) : i ∈ BitSet.below f.width (fun _ => true) ↔ i < f.width := by simp
    refine ⟨.below f.width fun _ => true, ⟨h.width_pos, h.width_le, hall⟩, ⟨?_, ?_, ?_⟩, ?_, ?_⟩
    · exact fun n a ha =>
        ⟨fun i hi => (hall i).2 (h.fields_inside n a ha i hi), h.entries_fit n a ha⟩
    · simp
    · exact h.fields_disjoint
    · exact fun aw haw => ⟨fun i hi => (hall i).2 (h.alwaysWrite_inside aw haw i hi),
        fun i hi n a ha => h.alwaysWrite_free aw n a haw ha i hi, h.alwaysWrite_fits aw haw⟩
    · exact h.reset_fits

theorem address_ok_iff {earlier : List (String × Register)} {name : String} {r : Register} :
    (address place earlier name r).result = .ok () ↔
      ∀ a, r.address = some a → ∀ e ∈ earlier, e.2.address ≠ some a := by
  unfold address
  cases r.address with
  | none => simp [accept]
  | some a =>
    cases hf : earlier.find? fun e => e.2.address == some a with
    | none => simpa [accept, hf] using fun n r hr => List.find?_eq_none.1 hf (n, r) hr
    | some e =>
      have he : e.2.address = some a := by simpa using List.find?_some hf
      simp only [hf, refuse, Logged.result_fail, reduceCtorEq, false_iff]
      exact fun h => h a rfl e (List.mem_of_find?_eq_some hf) he

def AtOtherAddress (e e' : String × Register) : Prop :=
  ∀ a, e.2.address = some a → e'.2.address ≠ some a

instance : Std.Symm AtOtherAddress := ⟨fun _ _ h a ha' ha => h a ha ha'⟩

theorem registers_ok_iff {earlier rs : List (String × Register)} :
    (registers place earlier rs).result = .ok () ↔
      (∀ e ∈ rs, e.2.form.WellFormed) ∧ (∀ e ∈ rs, ∀ e' ∈ earlier, AtOtherAddress e e') ∧
        rs.Pairwise AtOtherAddress := by
  induction rs generalizing earlier with
  | nil => simp [registers, accept]
  | cons e rs ih =>
    simp only [registers, Logged.seq_eq_ok, address_ok_iff, form_ok_iff, ih, List.forall_mem_cons,
      List.pairwise_cons]
    constructor
    · rintro ⟨haddr, hform, hforms, hearlier, hpair⟩
      exact ⟨⟨hform, hforms⟩, ⟨fun e' he' a ha => haddr a ha e' he', fun g hg => (hearlier g hg).2⟩,
        fun g hg => Std.Symm.symm _ _ (hearlier g hg).1, hpair⟩
    · rintro ⟨⟨hform, hforms⟩, ⟨haddr, hearlier⟩, he, hpair⟩
      exact ⟨fun a ha e' he' => haddr e' he' a ha, hform, hforms,
        fun g hg => ⟨Std.Symm.symm _ _ (he g hg), hearlier g hg⟩, hpair⟩

theorem block_ok_iff {b : String × BlockTemplate} :
    (block place b).result = .ok () ↔
      ∀ k t, b.2.registers.get? k = some t → t.form.WellFormed := by
  simp only [block, Logged.result_forM, Success.forM_eq_ok, form_ok_iff,
    Table.forall_entries_iff]

end Check

namespace RegisterMap

variable {m : RegisterMap}

theorem check_ok_iff_parts :
    m.check.result = .ok () ↔
      (Check.registers [m.name, "registers"] [] m.registers.entries).result = .ok () ∧
        ∀ b ∈ m.blocks.entries,
          (Check.block [m.name, "register_block_templates"] b).result = .ok () := by
  rw [check, Logged.seq_eq_ok, Logged.seq_eq_ok, Logged.result_forM, Success.forM_eq_ok]
  simp

theorem WellFormed.of_check (h : m.check.result = .ok ()) : m.WellFormed := by
  obtain ⟨hregs, hblocks⟩ := check_ok_iff_parts.1 h
  obtain ⟨hforms, -, hpair⟩ := Check.registers_ok_iff.1 hregs
  simp only [Check.block_ok_iff] at hblocks
  rw [Table.pairwise_entries_iff] at hpair
  refine ⟨fun n n' r r' a hr hr' ha ha' => ?_, fun n r => Table.forall_entries_iff.1 hforms n r,
    fun n b k t hb => Table.forall_entries_iff.1 hblocks n b hb k t⟩
  by_contra hne
  exact hpair n n' r r' hr hr' hne a ha ha'

theorem WellFormed.check (h : m.WellFormed) : m.check.result = .ok () := by
  refine check_ok_iff_parts.2 ⟨Check.registers_ok_iff.2 ⟨?_, ?_, ?_⟩, ?_⟩
  · exact Table.forall_entries_iff.2 h.registers
  · exact fun _ _ _ he => absurd he List.not_mem_nil
  · apply Table.pairwise_entries_iff.2
    intro n n' r r' hr hr' hne a ha ha'
    exact hne (h.addresses_distinct n n' r r' a hr hr' ha ha')
  · simp only [Check.block_ok_iff]
    exact Table.forall_entries_iff.2 fun n b hb k t => h.templates n b k t hb

/-- Checking accepts the well-formed maps and no others, whatever they were made or changed by and
whatever positions their sets of bits hold. -/
theorem check_ok_iff_wellFormed (m : RegisterMap) : m.check.result = .ok () ↔ m.WellFormed :=
  ⟨WellFormed.of_check, WellFormed.check⟩

end RegisterMap

end RegAtlas
