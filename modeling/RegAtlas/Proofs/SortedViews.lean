import RegAtlas.Proofs.CHeader.MacroMap
import RegAtlas.Proofs.Sorting
import Mathlib.Data.Prod.Lex
import Mathlib.Data.String.Basic
import Mathlib.Order.WithBot

namespace RegAtlas

/-- Registers with an address come before those without. -/
def Register.Precedes (r r' : Register) : Prop :=
  match r.address, r'.address with
  | some a, some a' => a.toNat < a'.toNat
  | some _, none => True
  | none, some _ => False
  | none, none => r.name < r'.name

def Field.StartsBelow (f f' : Field) : Prop :=
  ∃ l l', f.bits.lsb = .ok l ∧ f'.bits.lsb = .ok l' ∧ l < l'

def EnumEntry.LessThan (e e' : EnumEntry) : Prop := e.value.toNat < e'.value.toNat

/-- The enumerations of a map: the shared ones, and those of fields. -/
inductive RegisterMap.HasEnum (m : RegisterMap) (e : Enumeration) : Prop where
  | shared (k : String) (he : m.enums.get? k = some e)
  | field (f : Field) (hf : m.HasField f) (he : f.enumeration = some e)

structure RegisterMap.SortedViews (m : RegisterMap) : Prop where
  registers : StrictlySorted Register.Precedes m.registers.values m.registersByAddress
  registerAt : ∀ a r, m.registerAt a = some r ↔ r ∈ m.registers.values ∧ r.address = some a
  registerFields : ∀ r ∈ m.registers.values,
    StrictlySorted Field.StartsBelow r.fields.values r.fieldsByPosition
  layoutFields : ∀ l ∈ m.layouts,
    StrictlySorted Field.StartsBelow l.fields.values l.fieldsByPosition
  enums : ∀ e, m.HasEnum e → StrictlySorted EnumEntry.LessThan e.entries.values e.entriesByValue

variable {m : RegisterMap} {r : Register} {e : Enumeration} {enums : Named Enumeration}

/-- Where a register comes in the order of addresses, and by its name where there is none. -/
def Register.place (r : Register) : WithTop Nat ×ₗ String :=
  toLex (r.address.elim ⊤ fun a => WithTop.some a.toNat, r.name)

theorem Register.Precedes.place_lt {r' : Register} (h : r.Precedes r') : r.place < r'.place := by
  rw [place, place, Prod.Lex.toLex_lt_toLex]
  unfold Precedes at h
  split at h
  next a a' ha ha' => exact .inl (by simpa [ha, ha'] using h)
  next a ha ha' => exact .inl (by simp [ha, ha'])
  next => exact h.elim
  next ha ha' => exact .inr ⟨by simp [ha, ha'], h⟩

theorem Register.precedes_of_place_le {r' : Register} (h : r.place ≤ r'.place)
    (hname : r.name ≠ r'.name) (haddress : ∀ a, r.address = some a → r'.address ≠ some a) :
    r.Precedes r' := by
  rw [place, place, Prod.Lex.toLex_le_toLex] at h
  unfold Precedes
  split
  next a a' ha ha' =>
    have hne : a.toNat ≠ a'.toNat := fun he =>
      haddress a ha (ha'.trans (congrArg some (BitVec.eq_of_toNat_eq he).symm))
    simpa [ha, ha', hne] using h
  next => trivial
  next a' ha ha' => simp [ha, ha'] at h
  next ha ha' =>
    have hle : r.name ≤ r'.name := by simpa [ha, ha'] using h
    exact lt_of_le_of_ne hle hname

theorem RegisterMap.Coherent.registers_sorted (hm : m.Coherent) (hwell : m.WellFormed) :
    StrictlySorted Register.Precedes m.registers.values m.registersByAddress := by
  refine .of_key Register.place (fun r r' => ?_) (fun r r' h h' => ?_)
    (hm.registers_keyed.nodup.of_map _) fun r hr r' hr' hne hle => ?_
  · rw [Register.place, Register.place, Prod.Lex.toLex_le_toLex]
    cases r.address <;> cases r'.address <;> simp [BitVec.lt_def, BitVec.toNat_inj]
  · exact lt_asymm h.place_lt h'.place_lt
  · refine Register.precedes_of_place_le hle (fun he => ?_) fun a ha ha' => ?_
    · exact hne (List.inj_on_of_nodup_map hm.registers_keyed.nodup hr hr' he)
    · exact hne (hwell.eq_of_address hr hr' ha ha')

theorem RegisterForm.WellFormed.fields_sorted {form : RegisterForm} (hform : form.WellFormed)
    (hcoherent : form.Coherent enums) :
    StrictlySorted Field.StartsBelow form.fields.values (Field.byPosition form.fields) := by
  -- Fields that share no bit and have bits at all start at different bits.
  have hlsb (f) (hf : f ∈ form.fields.values) : ∃ l, f.bits.lsb = .ok l := by
    obtain ⟨k, hk⟩ := Table.mem_values_iff.1 hf
    obtain ⟨i, hi⟩ := (hcoherent.fields k f hk).bits_nonempty
    exact BitSet.exists_lsb_ok hi
  refine .of_key (fun f => f.bits.lsb?.getD 0) (fun f f' => decide_eq_true_iff)
    (fun f f' h h' => ?_) (hcoherent.fields_keyed.nodup.of_map _) fun f hf f' hf' hne hle => ?_
  · obtain ⟨l, l', hl, hl', hlt⟩ := h
    obtain ⟨k, k', hk, hk', hlt'⟩ := h'
    cases hl.symm.trans hk'
    cases hl'.symm.trans hk
    exact lt_asymm hlt hlt'
  · obtain ⟨l, hl⟩ := hlsb f hf
    obtain ⟨l', hl'⟩ := hlsb f' hf'
    have hmem := BitSet.lsb_eq_ok_iff.1 hl
    have hmem' := BitSet.lsb_eq_ok_iff.1 hl'
    rw [BitSet.lsb?_eq_some_iff.2 hmem, BitSet.lsb?_eq_some_iff.2 hmem'] at hle
    refine ⟨l, l', hl, hl', lt_of_le_of_ne hle ?_⟩
    rintro rfl
    exact hne (hform.field_unique hf hf' hmem.1 hmem'.1)

theorem Enumeration.Coherent.entries_sorted (he : e.Coherent) :
    StrictlySorted EnumEntry.LessThan e.entries.values e.entriesByValue := by
  refine .of_key (fun x : EnumEntry => toLex (x.value.toNat, x.name)) (fun x y => ?_)
    (fun x y => lt_asymm) (he.entries_keyed.nodup.of_map _) fun x hx y hy hne hle => ?_
  · simp [Prod.Lex.toLex_le_toLex, BitVec.lt_def, BitVec.toNat_inj]
  · obtain ⟨k, hk⟩ := Table.mem_values_iff.1 hx
    obtain ⟨k', hk'⟩ := Table.mem_values_iff.1 hy
    have hvalue : x.value.toNat ≠ y.value.toNat := by
      intro heq
      cases he.values_distinct k k' x y hk hk' (BitVec.eq_of_toNat_eq heq)
      exact hne (Option.some.inj (hk.symm.trans hk'))
    exact ((Prod.Lex.toLex_le_toLex.1 hle).resolve_right fun h => hvalue h.1)

theorem RegisterMap.Coherent.enum (hm : m.Coherent) (he : m.HasEnum e) : e.Coherent := by
  cases he with
  | shared k hk => exact (hm.enums k e hk).2
  | field f hf he => exact (hf.coherent hm).enumeration e he

/-- The views of every built map are sorted without ties, and whatever order a name would give plays
no part in them, except among registers without an address. -/
theorem RegisterMap.sortedViews_of_build {l : Listing} (h : l.build.result = .ok m) :
    m.SortedViews := by
  have hm := RegisterMap.Coherent.of_build h
  have hwell := RegisterMap.WellFormed.of_build h
  refine ⟨hm.registers_sorted hwell, fun a r => hwell.registerAt_eq_some_iff, fun r hr => ?_,
    fun layout hl => (layout_wellFormed h hl).fields_sorted (hm.layout_form hl),
    fun e he => (hm.enum he).entries_sorted⟩
  obtain ⟨k, hk⟩ := Table.mem_values_iff.1 hr
  exact (hwell.registers k r hk).fields_sorted (hm.registers k r hk)

def Listing.sparePump : Listing :=
  { Listing.pump with
    registers := Listing.pump.registers.insert "AUX"
      (.register ⟨.empty, none, none, none, none, none, none, none⟩) }

theorem Listing.sparePump_sortedViews : ∃ m, Listing.sparePump.build.result = .ok m ∧
    (m.registers.values.map fun r => (r.name, r.address)) =
      [("AUX", none), ("CH0_CONTROL", some 0x104#64), ("CH1_CONTROL", some 0x204#64),
        ("STATUS", some 0x10#64)] ∧ m.SortedViews := by
  have hregisters : Listing.sparePump.build.result.toOption.map (fun m =>
      m.registers.values.map fun r => (r.name, r.address)) =
      some [("AUX", none), ("CH0_CONTROL", some 0x104#64), ("CH1_CONTROL", some 0x204#64),
        ("STATUS", some 0x10#64)] := by decide +kernel
  obtain ⟨m, hm, hregisters⟩ := Success.exists_ok hregisters
  exact ⟨m, hm, hregisters, RegisterMap.sortedViews_of_build hm⟩

end RegAtlas
