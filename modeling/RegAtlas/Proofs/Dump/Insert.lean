import RegAtlas.Dump.Reader
import RegAtlas.Proofs.Success
import RegAtlas.Proofs.Table.Repeated

namespace RegAtlas.Dump

def Written.number? (w : Written) : Option Word := w.read.toOption

/-- The cells of the values from index `i` on in a list that starts at `start`, if all values are
numbers and none lies past the last address. -/
def valueCells? (start : Word) : Nat → List Written → Option (List (Word × Word))
  | _, [] => some []
  | i, v :: vs => do
    let address ← Word.ofNat? (start.toNat + i)
    let value ← v.number?
    let cells ← valueCells? start (i + 1) vs
    return (address, value) :: cells

def cells? : List (Written × Recorded) → Option (List (Word × Word))
  | [] => some []
  | e :: es => do
    let start ← e.1.number?
    let here ← valueCells? start 0 e.2.values
    let cells ← cells? es
    return here ++ cells

/-- The entries stand for cells at pairwise different addresses, and the dump is these cells. -/
def Records (es : List (Written × Recorded)) (d : Dump) : Prop :=
  ∃ cells, cells? es = some cells ∧ (cells.map Prod.fst).Nodup ∧
    ∀ a v, d.get? a = some v ↔ (a, v) ∈ cells

/-- Cells put in one after the other, each at an address that is still free. -/
inductive Adds : Dump → List (Word × Word) → Dump → Prop
  | nil (d : Dump) : Adds d [] d
  | cons {d d' : Dump} {a v : Word} {cells : List (Word × Word)} (free : d.get? a = none)
      (rest : Adds (d.insert a v) cells d') : Adds d ((a, v) :: cells) d'

variable {d d' : Dump} {a v start : Word} {i : Nat} {cells cells' : List (Word × Word)}
  {es es' : List (Written × Recorded)} {vs : List Written}

namespace Adds

theorem nil_iff : Adds d [] d' ↔ d = d' := by
  constructor
  · intro h
    cases h
    rfl
  · rintro rfl
    exact .nil d

theorem cons_iff : Adds d ((a, v) :: cells) d' ↔
    d.get? a = none ∧ Adds (d.insert a v) cells d' := by
  constructor
  · intro h
    cases h with
    | cons free rest => exact ⟨free, rest⟩
  · exact fun ⟨free, rest⟩ => .cons free rest

theorem append_iff : Adds d (cells ++ cells') d' ↔ ∃ t, Adds d cells t ∧ Adds t cells' d' := by
  induction cells generalizing d with
  | nil => simp only [List.nil_append, nil_iff, exists_eq_left']
  | cons c cells ih =>
    obtain ⟨a, v⟩ := c
    rw [List.cons_append, cons_iff, ih]
    simp only [cons_iff, and_assoc, exists_and_left]

theorem get?_iff (h : Adds d cells d') :
    d'.get? a = some v ↔ (a, v) ∈ cells ∨ d.get? a = some v := by
  induction h with
  | nil => simp
  | @cons d d' b w cells free rest ih =>
    rw [ih, Table.get?_insert, List.mem_cons]
    by_cases hab : a = b
    · subst hab
      simp [free, eq_comm, or_comm]
    · simp [hab]

theorem free (h : Adds d cells d') (hmem : (a, v) ∈ cells) : d.get? a = none := by
  induction h with
  | nil => cases hmem
  | @cons d d' b w cells free rest ih =>
    rcases List.mem_cons.1 hmem with he | hmem
    · cases he
      exact free
    · have hfree := ih hmem
      rw [Table.get?_insert] at hfree
      split at hfree
      next => cases hfree
      next => exact hfree

theorem nodup (h : Adds d cells d') : (cells.map Prod.fst).Nodup := by
  induction h with
  | nil => exact .nil
  | @cons d d' b w cells free rest ih =>
    refine List.nodup_cons.2 ⟨fun hmem => ?_, ih⟩
    obtain ⟨c, hc, rfl⟩ := List.mem_map.1 hmem
    simpa [Table.get?_insert] using rest.free hc

theorem of_get? (hnodup : (cells.map Prod.fst).Nodup) (hfree : ∀ c ∈ cells, d.get? c.1 = none)
    (hget : ∀ a v, d'.get? a = some v ↔ (a, v) ∈ cells ∨ d.get? a = some v) : Adds d cells d' := by
  induction cells generalizing d with
  | nil =>
    have he : d = d' := by
      refine Table.ext_get? fun a => Option.ext fun v => ?_
      simp [hget a v]
    rw [he]
    exact .nil d'
  | cons c cells ih =>
    obtain ⟨b, w⟩ := c
    obtain ⟨hb, hnodup⟩ := List.nodup_cons.1 hnodup
    obtain ⟨hbfree, hfree⟩ := List.forall_mem_cons.1 hfree
    refine .cons hbfree (ih hnodup (fun c hc => ?_) fun a v => ?_)
    · rw [Table.get?_insert, if_neg]
      · exact hfree c hc
      · exact fun he => hb (List.mem_map.2 ⟨c, hc, he⟩)
    · rw [hget, Table.get?_insert, List.mem_cons]
      by_cases hab : a = b
      · subst hab
        simp [hbfree, eq_comm, or_comm]
      · simp [hab]

theorem empty_iff : Adds .empty cells d ↔
    (cells.map Prod.fst).Nodup ∧ ∀ a v, d.get? a = some v ↔ (a, v) ∈ cells := by
  constructor
  · exact fun h => ⟨h.nodup, fun a v => by simpa using h.get?_iff⟩
  · exact fun ⟨hnodup, hget⟩ => of_get? hnodup (fun _ _ => rfl) fun a v => by simpa using hget a v

end Adds

theorem number?_eq_some_iff {w : Written} : w.number? = some v ↔ w.read = .ok v := by
  unfold Written.number?
  cases w.read <;> simp [Except.toOption]

theorem insertValues_cons_ok_iff {w : Written} :
    insertValues start i (w :: vs) d = .ok d' ↔ ∃ a, Word.ofNat? (start.toNat + i) = some a ∧
      ∃ v, w.read = .ok v ∧ d.get? a = none ∧
        insertValues start (i + 1) vs (d.insert a v) = .ok d' := by
  rw [insertValues]
  cases ha : Word.ofNat? (start.toNat + i) with
  | none => simp
  | some a =>
    simp only [Option.some.injEq, exists_eq_left']
    refine Success.bind_eq_ok.trans (exists_congr fun v => ?_)
    rw [Success.mapError_eq_ok]
    refine and_congr_right fun _ => ?_
    cases hd : d.get? a with
    | none => simp [Table.contains, hd]
    | some _ =>
      simp only [Table.contains, hd, Option.isSome_some, if_true, reduceCtorEq, false_and,
        iff_false]
      exact nofun

theorem insertValues_ok_iff : insertValues start i vs d = .ok d' ↔
    ∃ cells, valueCells? start i vs = some cells ∧ Adds d cells d' := by
  induction vs generalizing i d with
  | nil =>
    simp only [insertValues, valueCells?, Option.some.injEq, exists_eq_left', Except.ok.injEq,
      Adds.nil_iff]
  | cons w vs ih =>
    rw [insertValues_cons_ok_iff, valueCells?]
    simp only [ih, Option.bind_eq_bind, Option.bind_eq_some_iff, Option.pure_def, Option.some.injEq,
      number?_eq_some_iff]
    constructor
    · rintro ⟨a, ha, v, hv, hfree, cells, hcells, hadds⟩
      exact ⟨_, ⟨a, ha, v, hv, cells, hcells, rfl⟩, .cons hfree hadds⟩
    · rintro ⟨_, ⟨a, ha, v, hv, cells, hcells, rfl⟩, hadds⟩
      obtain ⟨hfree, hadds⟩ := Adds.cons_iff.1 hadds
      exact ⟨a, ha, v, hv, hfree, cells, hcells, hadds⟩

theorem cells?_cons_eq_some_iff {e : Written × Recorded} : cells? (e :: es) = some cells ↔
    ∃ start here rest, e.1.number? = some start ∧ valueCells? start 0 e.2.values = some here ∧
      cells? es = some rest ∧ here ++ rest = cells := by
  simp only [cells?, Option.bind_eq_bind, Option.bind_eq_some_iff, Option.pure_def,
    Option.some.injEq]
  constructor
  · rintro ⟨start, hstart, here, hhere, rest, hrest, he⟩
    exact ⟨start, here, rest, hstart, hhere, hrest, he⟩
  · rintro ⟨start, here, rest, hstart, hhere, hrest, he⟩
    exact ⟨start, hstart, here, hhere, rest, hrest, he⟩

theorem insertEntries_ok_iff : insertEntries es d = .ok d' ↔
    ∃ cells, cells? es = some cells ∧ Adds d cells d' := by
  induction es generalizing d with
  | nil =>
    simp only [insertEntries, cells?, Option.some.injEq, exists_eq_left', Except.ok.injEq,
      Adds.nil_iff]
  | cons e es ih =>
    have hstep : insertEntries (e :: es) d = .ok d' ↔ ∃ start, e.1.read = .ok start ∧
        ∃ t, insertValues start 0 e.2.values d = .ok t ∧ insertEntries es t = .ok d' := by
      rw [insertEntries]
      refine Success.bind_eq_ok.trans (exists_congr fun start => ?_)
      rw [Success.mapError_eq_ok]
      exact and_congr_right fun _ => Success.bind_eq_ok
    rw [hstep]
    simp only [insertValues_ok_iff, ih, cells?_cons_eq_some_iff, number?_eq_some_iff]
    constructor
    · rintro ⟨start, hstart, t, ⟨here, hhere, hadds⟩, rest, hrest, hadds'⟩
      exact ⟨_, ⟨start, here, rest, hstart, hhere, hrest, rfl⟩,
        Adds.append_iff.2 ⟨t, hadds, hadds'⟩⟩
    · rintro ⟨_, ⟨start, here, rest, hstart, hhere, hrest, rfl⟩, hadds⟩
      obtain ⟨t, hadds, hadds'⟩ := Adds.append_iff.1 hadds
      exact ⟨start, hstart, t, ⟨here, hhere, hadds⟩, rest, hrest, hadds'⟩

theorem ofListing_ok_iff {l : Listing} : ofListing l = .ok d ↔ Records l.entries d := by
  rw [ofListing, insertEntries_ok_iff]
  simp only [Adds.empty_iff, Records]

theorem cells?_append_eq_some_iff : cells? (es ++ es') = some cells ↔
    ∃ c c', cells? es = some c ∧ cells? es' = some c' ∧ c ++ c' = cells := by
  induction es generalizing cells with
  | nil => simp [cells?]
  | cons e es ih =>
    simp only [List.cons_append, cells?_cons_eq_some_iff, ih]
    constructor
    · rintro ⟨start, here, _, hstart, hhere, ⟨c, c', hc, hc', rfl⟩, rfl⟩
      exact ⟨_, c', ⟨start, here, c, hstart, hhere, hc, rfl⟩, hc', List.append_assoc ..⟩
    · rintro ⟨_, c', ⟨start, here, c, hstart, hhere, hc, rfl⟩, hc', rfl⟩
      exact ⟨start, here, _, hstart, hhere, ⟨c, c', hc, hc', rfl⟩, (List.append_assoc ..).symm⟩

theorem cells?_perm (h : es.Perm es') (hes : cells? es = some cells) :
    ∃ cells', cells? es' = some cells' ∧ cells.Perm cells' := by
  induction h generalizing cells with
  | nil => exact ⟨cells, hes, .rfl⟩
  | cons e _ ih =>
    obtain ⟨start, here, rest, hstart, hhere, hrest, rfl⟩ := cells?_cons_eq_some_iff.1 hes
    obtain ⟨rest', hrest', hperm⟩ := ih hrest
    exact ⟨_, cells?_cons_eq_some_iff.2 ⟨start, here, rest', hstart, hhere, hrest', rfl⟩,
      hperm.append_left here⟩
  | swap e e' es =>
    obtain ⟨start', here', _, hstart', hhere', htail, rfl⟩ := cells?_cons_eq_some_iff.1 hes
    obtain ⟨start, here, rest, hstart, hhere, hrest, rfl⟩ := cells?_cons_eq_some_iff.1 htail
    refine ⟨_, cells?_cons_eq_some_iff.2 ⟨start, here, _, hstart, hhere,
      cells?_cons_eq_some_iff.2 ⟨start', here', rest, hstart', hhere', hrest, rfl⟩, rfl⟩, ?_⟩
    rw [← List.append_assoc, ← List.append_assoc]
    exact List.perm_append_comm.append_right rest
  | trans _ _ ih ih' =>
    obtain ⟨cells', hcells', hperm⟩ := ih hes
    obtain ⟨cells'', hcells'', hperm'⟩ := ih' hcells'
    exact ⟨cells'', hcells'', hperm.trans hperm'⟩

theorem Records.perm (h : Records es d) (hperm : es.Perm es') : Records es' d := by
  obtain ⟨cells, hcells, hnodup, hget⟩ := h
  obtain ⟨cells', hcells', hperm⟩ := cells?_perm hperm hcells
  refine ⟨cells', hcells', ((hperm.map Prod.fst).nodup_iff).1 hnodup, fun a v => ?_⟩
  rw [hget, hperm.mem_iff]

theorem records_perm_iff (hperm : es.Perm es') : Records es d ↔ Records es' d :=
  ⟨fun h => h.perm hperm, fun h => h.perm hperm.symm⟩

/-- Further entries add nothing to a dump exactly if they stand for no cells, since a cell of theirs
would have to be one of the others. -/
theorem Records.append_iff (h : Records es d) : Records (es ++ es') d ↔ cells? es' = some [] := by
  obtain ⟨cells, hcells, hnodup, hget⟩ := h
  constructor
  · rintro ⟨_, hall, hnodup', hget'⟩
    obtain ⟨c, c', hc, hc', rfl⟩ := cells?_append_eq_some_iff.1 hall
    cases hcells.symm.trans hc
    rw [hc', Option.some.injEq, List.eq_nil_iff_forall_not_mem]
    rintro ⟨a, v⟩ hmem
    have hcell : (a, v) ∈ cells := (hget a v).1 ((hget' a v).2 (List.mem_append_right _ hmem))
    rw [List.map_append, List.nodup_append] at hnodup'
    exact hnodup'.2.2 a (List.mem_map_of_mem hcell) a (List.mem_map_of_mem hmem) rfl
  · intro hnil
    exact ⟨cells, cells?_append_eq_some_iff.2 ⟨cells, [], hcells, hnil, List.append_nil _⟩, hnodup,
      hget⟩

end RegAtlas.Dump
