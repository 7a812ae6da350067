import RegAtlas.Proofs.Resolve.Instances

namespace RegAtlas.Resolve

open Listing (Entry)

variable {place : Breadcrumb}

def stamped (block i : String) (start : Word) (t : TemplateRegister) : Register where
  name := i ++ t.name
  address := some (start + t.offset)
  width := t.width
  fields := t.fields
  resetValue := t.resetValue
  alwaysWrite := t.alwaysWrite
  origin := some ⟨block, i, t.name⟩
  docs := t.docs

theorem add?_eq_some_iff {v w sum : Word} :
    v.add? w = some sum ↔ v.toNat + w.toNat < 2 ^ 64 ∧ sum = v + w := by
  unfold Word.add? Word.ofNat? wordSize
  rw [Nat.one_shiftLeft]
  split
  next h =>
    have hsum : BitVec.ofNat 64 (v.toNat + w.toNat) = v + w := rfl
    rw [hsum, Option.some.injEq]
    exact ⟨fun he => ⟨h, he.symm⟩, fun he => he.2.symm⟩
  next h => simp [h]

theorem stamp_ok_iff {block i : String} {start : Word} {t : TemplateRegister} {r : Register} :
    stamp block i start place t = .ok r ↔
      start.toNat + t.offset.toNat < 2 ^ 64 ∧ r = stamped block i start t := by
  unfold stamp
  cases h : start.add? t.offset with
  | none =>
    have hno : ¬start.toNat + t.offset.toNat < 2 ^ 64 := fun hlt => by
      rw [add?_eq_some_iff.2 ⟨hlt, rfl⟩] at h
      cases h
    simp only [refuse_ne_ok, hno, false_and]
  | some sum =>
    obtain ⟨hlt, rfl⟩ := add?_eq_some_iff.1 h
    simp only [Except.ok.injEq, hlt, true_and]
    exact eq_comm

/-- One step of a run: a register of its own, or an instance of a block. -/
inductive Addition where
  | register (r : Register)
  | instanceOf (block name : String) (start : Word)

def Addition.registers (blocks : Named BlockTemplate) : Addition → List Register
  | register r => [r]
  | instanceOf b i start =>
    (blocks.get? b).elim [] fun block => block.registers.values.map (stamped b i start)

namespace Assembly

variable {a a' : Assembly} {blocks : Named BlockTemplate} {done : List Addition}

theorem clash?_eq_none_iff {r : Register} :
    a.clash? r = none ↔ a.registers.get? r.name = none ∧
      ∀ x, r.address = some x → ∀ k r', a.registers.get? k = some r' → r'.address ≠ some x := by
  unfold clash? nameAt?
  cases hn : a.registers.get? r.name with
  | some r' => simp [Table.contains, hn]
  | none =>
    cases r.address with
    | none => simp [Table.contains, hn]
    | some x => simp [Table.contains, hn, Table.forall_values_iff]

theorem add_ok_iff {r : Register} :
    (a.add r place).result = .ok a' ↔
      isIdentifier r.name = true ∧ a.clash? r = none ∧
        a' = { a with registers := a.registers.insert r.name r } := by
  unfold add checkName
  by_cases hname : isIdentifier r.name = true
  · cases hclash : a.clash? r with
    | some cause => simp [hname]
    | none =>
      simp only [hname, if_true, true_and, Logged.result_bind, Logged.result_liftM,
        Success.bind_eq_ok, Logged.result_report, Logged.result_pure, Except.ok.injEq]
      exact ⟨fun ⟨_, _, h⟩ => h.symm, fun h => ⟨(), (), h.symm⟩⟩
  · simp [hname]

theorem add_ok {r : Register} (h : (a.add r place).result = .ok a') :
    a'.blocks = a.blocks ∧ ∀ k r', a'.registers.get? k = some r' ↔
      a.registers.get? k = some r' ∨ (r'.name = k ∧ r' = r) := by
  obtain ⟨-, hclash, rfl⟩ := add_ok_iff.1 h
  refine ⟨rfl, fun k r' => ?_⟩
  rw [Table.get?_insert]
  split
  next hk =>
    subst hk
    rw [(clash?_eq_none_iff.1 hclash).1]
    simp only [Option.some.injEq, reduceCtorEq, false_or]
    exact ⟨fun h => h ▸ ⟨rfl, rfl⟩, fun h => h.2.symm⟩
  next hk =>
    refine ⟨.inl, fun h => h.resolve_right ?_⟩
    rintro ⟨rfl, rfl⟩
    exact hk rfl

theorem addAll_ok {rs : List Register} (h : (a.addAll rs place).result = .ok a') :
    a'.blocks = a.blocks ∧ ∀ k r, a'.registers.get? k = some r ↔
      a.registers.get? k = some r ∨ (r.name = k ∧ r ∈ rs) := by
  rw [addAll, Logged.result_foldlM] at h
  refine Success.foldlM_invariant (fun rs a' => a'.blocks = a.blocks ∧ ∀ k r,
    a'.registers.get? k = some r ↔ a.registers.get? k = some r ∨ (r.name = k ∧ r ∈ rs))
    ?_ ⟨rfl, by simp⟩ h
  intro pre r s s' ⟨hblocks, hregs⟩ hadd
  obtain ⟨hblocks', hregs'⟩ := add_ok hadd
  refine ⟨hblocks'.trans hblocks, fun k r' => ?_⟩
  rw [hregs', hregs, List.mem_append, List.mem_singleton, or_assoc, and_or_left]

/-- What a run has come to after `done`, from `blocks` without instances and no registers. -/
structure Made (blocks : Named BlockTemplate) (done : List Addition) (a : Assembly) : Prop where
  templates : ∀ b, (a.blocks.get? b).map (fun block => { block with instances := .empty }) =
    blocks.get? b
  instances : ∀ b block, a.blocks.get? b = some block → ∀ i start,
    block.instances.get? i = some start ↔ .instanceOf b i start ∈ done
  known : ∀ b i start, .instanceOf b i start ∈ done → ∃ block, blocks.get? b = some block ∧
    ∀ k t, block.registers.get? k = some t → start.toNat + t.offset.toNat < 2 ^ 64
  registers : ∀ k r, a.registers.get? k = some r ↔
    r.name = k ∧ r ∈ done.flatMap (Addition.registers blocks)

theorem Made.start (h : ∀ b block, blocks.get? b = some block → block.instances = .empty) :
    Made blocks [] ⟨blocks, .empty⟩ where
  templates b := by
    cases hb : blocks.get? b with
    | none => rfl
    | some block =>
      rw [Option.map_some, ← h b block hb]
  instances b block hb i start := by simp [h b block hb]
  known := by simp
  registers := by simp

theorem Made.start_of_table {context : Context} {specs : Named Listing.BlockSpec}
    (h : (table (block context place) specs).result = .ok blocks) :
    Made blocks [] ⟨blocks, .empty⟩ := by
  apply Made.start
  intro b block hb
  obtain ⟨spec, -, hspec⟩ := (table_ok h).exists_left hb
  exact (block_ok hspec).instances

theorem Made.add {r : Register} (hm : Made blocks done a)
    (h : (a.add r place).result = .ok a') : Made blocks (done ++ [.register r]) a' := by
  obtain ⟨hblocks, hregs⟩ := add_ok h
  refine ⟨fun b => ?_, fun b block hb i start => ?_, fun b i start hd => ?_, fun k r' => ?_⟩
  · rw [hblocks, hm.templates]
  · rw [hblocks] at hb
    simpa using hm.instances b block hb i start
  · exact hm.known b i start (by simpa using hd)
  · rw [hregs, hm.registers, ← and_or_left]
    simp [Addition.registers]

theorem addInstance_ok {b : String} {n : String × Word}
    (h : (a.addInstance b place n).result = .ok a') :
    ∃ block, a.blocks.get? b = some block ∧ block.instances.get? n.1 = none ∧
      (∀ k t, block.registers.get? k = some t → n.2.toNat + t.offset.toNat < 2 ^ 64) ∧
      a'.blocks = a.blocks.insert b { block with instances := block.instances.insert n.1 n.2 } ∧
      ∀ k r, a'.registers.get? k = some r ↔ a.registers.get? k = some r ∨
        (r.name = k ∧ r ∈ block.registers.values.map (stamped b n.1 n.2)) := by
  unfold addInstance at h
  cases hb : a.blocks.get? b with
  | none => simp [hb] at h
  | some block =>
    simp only [hb] at h
    split at h
    next => simp at h
    next hnew =>
      simp only [Logged.result_bind, Logged.result_liftM, Logged.result_pure, Success.bind_eq_ok,
        Success.mapM_eq_ok, stamp_ok_iff, Except.ok.injEq] at h
      obtain ⟨rs, hrs, s, hs, rfl⟩ := h
      obtain ⟨hblocks, hregs⟩ := addAll_ok hs
      have hrs' : rs = block.registers.values.map (stamped b n.1 n.2) := by
        have heq := List.forall₂_map_left_iff.2 (hrs.imp fun _ _ h => h.2.symm)
        rw [List.forall₂_eq_eq_eq] at heq
        exact heq.symm
      refine ⟨block, rfl, ?_, ?_, ?_, ?_⟩
      · simpa [Table.contains] using hnew
      · intro k t ht
        have ht := Table.mem_values_iff.2 ⟨k, ht⟩
        obtain ⟨r, -, hlt, -⟩ := Table.exists_of_forall₂_left hrs ht
        exact hlt
      · rw [hblocks]
      · rw [← hrs']
        exact hregs

theorem Made.addInstance {b : String} {n : String × Word} (hm : Made blocks done a)
    (h : (a.addInstance b place n).result = .ok a') :
    Made blocks (done ++ [.instanceOf b n.1 n.2]) a' := by
  obtain ⟨block, hb, hnew, hfit, hblocks, hregs⟩ := addInstance_ok h
  have hbare : blocks.get? b = some { block with instances := .empty } := by
    rw [← hm.templates, hb]
    rfl
  refine ⟨fun b' => ?_, fun b' block' hb' i start => ?_, fun b' i start hd => ?_, fun k r => ?_⟩
  · rw [hblocks, Table.get?_insert]
    split
    next hbb =>
      subst hbb
      exact hbare.symm
    next => exact hm.templates b'
  · rw [hblocks, Table.get?_insert] at hb'
    rw [List.mem_append, List.mem_singleton, Addition.instanceOf.injEq]
    split at hb'
    next hbb =>
      subst hbb
      cases hb'
      rw [← hm.instances b' block hb, Table.get?_insert]
      split
      next hi =>
        subst hi
        simp [hnew, eq_comm]
      next hi => simp [hi]
    next hbb =>
      rw [hm.instances b' block' hb']
      exact ⟨.inl, fun h => h.resolve_right fun he => hbb he.1⟩
  · rcases List.mem_append.1 hd with hd | hd
    · exact hm.known b' i start hd
    · cases List.mem_singleton.1 hd
      exact ⟨_, hbare, hfit⟩
  · rw [hregs, hm.registers, ← and_or_left, List.flatMap_append, List.mem_append]
    simp [Addition.registers, hbare]

end Assembly

def Adds (context : Context) (place : Breadcrumb) (e : String × Entry) (added : List Addition) :
    Prop :=
  match e.2 with
  | .register spec => ∃ r, (register context (place ++ [e.1]) e.1 spec).result = .ok r ∧
      added = [.register r]
  | .block use => ∃ named, instances e.1 use (place ++ [e.1]) = .ok named ∧
      added = named.map fun n => .instanceOf use.block n.1 n.2

namespace Adds

variable {context : Context} {place : Breadcrumb} {e : String × Entry} {added : List Addition}

theorem register_mem_iff {r : Register} (h : Adds context place e added) :
    .register r ∈ added ↔ ∃ spec, e.2 = .register spec ∧
      (register context (place ++ [e.1]) e.1 spec).result = .ok r := by
  obtain ⟨k, e⟩ := e
  cases e with
  | register spec =>
    obtain ⟨r', hr', rfl⟩ := h
    rw [List.mem_singleton]
    constructor
    · intro h
      cases h
      exact ⟨spec, rfl, hr'⟩
    · rintro ⟨_, ⟨⟩, hr⟩
      cases hr.symm.trans hr'
      rfl
  | block use =>
    obtain ⟨named, -, rfl⟩ := h
    simp

theorem instanceOf_mem_iff {b i : String} {start : Word} (h : Adds context place e added) :
    .instanceOf b i start ∈ added ↔
      ∃ use, e.2 = .block use ∧ use.block = b ∧ use.Asks e.1 i start := by
  obtain ⟨k, e⟩ := e
  cases e with
  | register spec =>
    obtain ⟨r, -, rfl⟩ := h
    simp
  | block use =>
    obtain ⟨named, hnamed, rfl⟩ := h
    constructor
    · intro hmem
      obtain ⟨⟨i, start⟩, hn, heq⟩ := List.mem_map.1 hmem
      cases heq
      exact ⟨use, rfl, rfl, (mem_instances_iff hnamed).1 hn⟩
    · rintro ⟨_, ⟨⟩, rfl, hasks⟩
      exact List.mem_map.2 ⟨(i, start), (mem_instances_iff hnamed).2 hasks, rfl⟩

end Adds

end RegAtlas.Resolve
