import RegAtlas.Proofs.BitSet.Extract
import RegAtlas.Proofs.Check.WellFormed
import RegAtlas.Proofs.Resolve.Coherence

namespace RegAtlas

namespace Enumeration

variable {e : Enumeration} {entry : EnumEntry} {x : Word} {width : Nat}

theorem entryByValue_eq_none_iff : e.entryByValue x = none ↔
    ∀ k entry, e.entries.get? k = some entry → entry.value ≠ x := by
  rw [entryByValue, List.find?_eq_none, Table.forall_values_iff]
  simp only [beq_iff_eq, ne_eq]

theorem of_entryByValue (h : e.entryByValue x = some entry) :
    (∃ k, e.entries.get? k = some entry) ∧ entry.value = x := by
  unfold entryByValue at h
  exact ⟨Table.mem_values_iff.1 (List.mem_of_find?_eq_some h), by simpa using List.find?_some h⟩

theorem Coherent.entryByValue_eq_some_iff (h : e.Coherent) : e.entryByValue x = some entry ↔
    (∃ k, e.entries.get? k = some entry) ∧ entry.value = x := by
  -- No two entries have one value, so that the first one with a value is the only one.
  refine ⟨of_entryByValue, ?_⟩
  rintro ⟨⟨k, hk⟩, rfl⟩
  cases hfound : e.entryByValue entry.value with
  | none => exact absurd rfl (entryByValue_eq_none_iff.1 hfound k entry hk)
  | some other =>
    obtain ⟨⟨k', hk'⟩, hvalue⟩ := of_entryByValue hfound
    cases h.values_distinct k' k other entry hk' hk hvalue
    exact hk'.symm.trans hk

/-- All values of the enumeration fit the width. -/
def Fits (e : Enumeration) (width : Nat) : Prop :=
  ∀ k entry, e.entries.get? k = some entry → entry.value.fits width = true

theorem fits_iff : e.Fits width ↔
    ∀ k entry, e.entries.get? k = some entry → entry.value.toNat < 2 ^ width := by
  simp only [Fits, Word.fits_iff]

theorem fits_iff_minWidth_le : e.Fits width ↔ e.minWidth ≤ width := by
  have hfold (entries : List EnumEntry) (start : Nat) :
      entries.foldl (fun w entry => max w entry.value.bitLength) start ≤ width ↔
        start ≤ width ∧ ∀ entry ∈ entries, entry.value.toNat < 2 ^ width := by
    induction entries generalizing start with
    | nil => simp
    | cons entry entries ih =>
      rw [List.foldl_cons, ih, Nat.max_le, Word.bitLength_le_iff, List.forall_mem_cons, and_assoc]
  rw [minWidth, hfold, fits_iff, Table.forall_values_iff]
  exact (and_iff_right (Nat.zero_le _)).symm

end Enumeration

namespace Field

variable {f : Field} {enums : Named Enumeration} {entry : EnumEntry} {l : Nat} {x : Word}

/-- The enumeration of the field, shared or its own, has the entry. -/
def HasEntry (f : Field) (entry : EnumEntry) : Prop :=
  ∃ e k, f.enumeration = some e ∧ e.entries.get? k = some entry

theorem entryByValue_eq_none_iff :
    f.entryByValue x = none ↔ ∀ entry, f.HasEntry entry → entry.value ≠ x := by
  unfold entryByValue HasEntry
  cases f.enumeration with
  | none => simp
  | some e =>
    rw [Option.bind_some, Enumeration.entryByValue_eq_none_iff]
    exact ⟨fun h entry ⟨_, k, he, hk⟩ => h k entry (by rwa [Option.some.inj he]),
      fun h k entry hk => h entry ⟨e, k, rfl, hk⟩⟩

theorem of_entryByValue (h : f.entryByValue x = some entry) :
    f.HasEntry entry ∧ entry.value = x := by
  obtain ⟨e, he, hx⟩ := Option.bind_eq_some_iff.1 h
  obtain ⟨⟨k, hk⟩, hvalue⟩ := Enumeration.of_entryByValue hx
  exact ⟨⟨e, k, he, hk⟩, hvalue⟩

theorem Coherent.entryByValue_eq_some_iff (h : f.Coherent enums) :
    f.entryByValue x = some entry ↔ f.HasEntry entry ∧ entry.value = x := by
  have henum := h.enumeration
  unfold entryByValue HasEntry
  cases he : f.enumeration with
  | none => simp
  | some e =>
    rw [Option.bind_some, (henum e he).entryByValue_eq_some_iff]
    simp only [Option.some.injEq, exists_and_left, exists_eq_left']

/-- The field, whose lowest bit is at `l`, recovers the values of its enumeration. -/
structure Recovers (f : Field) (l : Nat) : Prop where
  lsb : f.bits.lsb = .ok l
  kept : ∀ entry, f.HasEntry entry → (entry.value <<< l).toNat = entry.value.toNat * 2 ^ l
  inside : ∀ entry, f.HasEntry entry → (entry.value <<< l) &&& ~~~f.mask = 0#64
  extracted : ∀ v, ∃ x, f.extract v = .ok x
  recovered : ∀ entry, f.HasEntry entry → ∀ v, v &&& f.mask = entry.value <<< l →
    f.extract v = .ok entry.value ∧ f.entryByValue entry.value = some entry
  unknown : ∀ v x, f.extract v = .ok x → (f.entryByValue x = none ↔
    ∀ entry, f.HasEntry entry → v &&& f.mask ≠ entry.value <<< l)

theorem Holds.places (h : f.Holds x) (hl : f.bits.lsb = .ok l) : f.bits.Places l x := by
  intro i hi
  obtain ⟨l', hmem, hle, hi⟩ := h i hi
  cases hl.symm.trans (BitSet.lsb_eq_ok_iff.2 ⟨hmem, hle⟩)
  exact hi

theorem Holds.lt_two_pow_spanWidth (h : f.Holds x) (hf : f.Coherent enums) :
    x.toNat < 2 ^ f.bits.spanWidth := by
  obtain ⟨i, hi⟩ := hf.bits_nonempty
  obtain ⟨l, hl⟩ := BitSet.exists_lsb_ok hi
  exact (h.places hl).toNat_lt hl

theorem Coherent.recovers (h : f.Coherent enums)
    (hfit : ∀ entry, f.HasEntry entry → f.Holds entry.value) : ∃ l, f.Recovers l := by
  obtain ⟨i, hi⟩ := h.bits_nonempty
  obtain ⟨l, hl⟩ := BitSet.exists_lsb_ok hi
  have hword : f.bits.InWord := h.bits_lt
  have hplaces (entry) (he : f.HasEntry entry) : f.bits.Places l entry.value :=
    (hfit entry he).places hl
  refine ⟨l, {
    lsb := hl
    kept := fun entry he => (hplaces entry he).toNat_shiftLeft hword
    inside := fun entry he => (hplaces entry he).within_mask
    extracted := fun v => ⟨_, BitSet.extract_eq hl v⟩
    recovered := fun entry he v hv => ⟨?_, h.entryByValue_eq_some_iff.2 ⟨he, rfl⟩⟩
    unknown := fun v x hx => ?_ }⟩
  · rw [← ((hplaces entry he).taken_eq_iff hword hl).2 hv]
    exact BitSet.extract_eq hl v
  · cases hx.symm.trans (BitSet.extract_eq hl v)
    rw [entryByValue_eq_none_iff]
    refine forall₂_congr fun entry he => not_congr ?_
    rw [eq_comm]
    exact (hplaces entry he).taken_eq_iff hword hl

end Field

theorem RegisterForm.Coherent.recovers {form : RegisterForm} {enums : Named Enumeration}
    {n : String} {f : Field} (h : form.Coherent enums) (hform : form.WellFormed)
    (hf : form.fields.get? n = some f) : ∃ l, f.Recovers l :=
  (h.fields n f hf).recovers fun entry ⟨e, k, he, hk⟩ => hform.entries_fit n f hf e he k entry hk

namespace RegisterMap

inductive HasForm (m : RegisterMap) : RegisterForm → Prop where
  | register {k : String} {r : Register} (hr : m.registers.get? k = some r) : m.HasForm r.form
  | template {b k : String} {block : BlockTemplate} {t : TemplateRegister}
    (hb : m.blocks.get? b = some block) (ht : block.registers.get? k = some t) : m.HasForm t.form

def HasField (m : RegisterMap) (f : Field) : Prop :=
  ∃ form n, m.HasForm form ∧ form.fields.get? n = some f

variable {m : RegisterMap} {form : RegisterForm} {f : Field} {e : Enumeration}

theorem HasForm.wellFormed (h : m.HasForm form) (hm : m.WellFormed) : form.WellFormed := by
  cases h with
  | register hr => exact hm.registers _ _ hr
  | template hb ht => exact hm.templates _ _ _ _ hb ht

theorem HasForm.coherent (h : m.HasForm form) (hm : m.Coherent) : form.Coherent m.enums := by
  cases h with
  | register hr => exact hm.registers _ _ hr
  | template hb ht => exact hm.templates _ _ _ _ hb ht

theorem HasField.coherent (h : m.HasField f) (hm : m.Coherent) : f.Coherent m.enums := by
  obtain ⟨form, n, hform, hf⟩ := h
  exact (hform.coherent hm).fields n f hf

theorem HasField.fits_spanWidth (h : m.HasField f) (hm : m.Coherent) (hwell : m.WellFormed)
    (he : f.enumeration = some e) : e.Fits f.bits.spanWidth := by
  have hf : f.Coherent m.enums := h.coherent hm
  obtain ⟨form, n, hform, hn⟩ := h
  refine Enumeration.fits_iff.2 fun k entry hk => ?_
  exact ((hform.wellFormed hwell).entries_fit n f hn e he k entry hk).lt_two_pow_spanWidth hf

end RegisterMap

end RegAtlas
