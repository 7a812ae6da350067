import RegAtlas.Proofs.Resolve.Parts

namespace RegAtlas

/-- `result` is `text` with `new` in the place of the first occurrence of `old`. -/
def Replaced (old new text result : String) : Prop :=
  old ≠ "" ∧ ∃ before after, text = before ++ old ++ after ∧ result = before ++ new ++ after ∧
    ∀ before' after', text = before' ++ old ++ after' → before.length ≤ before'.length

namespace Listing

/-- The name of the instance with an id: the id stands behind the name of the entry, or in the place
of a text in it. -/
def InstanceNamed (name id : String) (replace : Option String) (i : String) : Prop :=
  match replace with
  | none => i = name ++ id
  | some old => Replaced old id name i

/-- The entry `name` asks for an instance `i` that starts at `start`. -/
def BlockUse.Asks (use : BlockUse) (name i : String) (start : Word) : Prop :=
  match use.start with
  | .single address => i = name ∧ start = address
  | .byId addresses => ∃ id, addresses.get? id = some start ∧ InstanceNamed name id use.replace i

end Listing

namespace Resolve

open Listing (BlockUse InstanceNamed)

theorem exists_behind_first {old cs before after : List Char} {c : Char}
    (hp : ¬old <+: c :: cs) (h : c :: cs = before ++ old ++ after) :
    ∃ before', before = c :: before' ∧ cs = before' ++ old ++ after := by
  cases before with
  | nil => exact absurd ⟨after, h.symm⟩ hp
  | cons d before' =>
    obtain ⟨rfl, hcs⟩ := List.cons.inj h
    exact ⟨before', rfl, hcs⟩

theorem replaceFirst?_eq_some_iff {old new text result : List Char} (hold : old ≠ []) :
    replaceFirst? old new text = some result ↔
      ∃ before after, text = before ++ old ++ after ∧ result = before ++ new ++ after ∧
        ∀ before' after', text = before' ++ old ++ after' → before.length ≤ before'.length := by
  induction text generalizing result with
  | nil => simp [replaceFirst?, hold]
  | cons c cs ih =>
    unfold replaceFirst?
    by_cases hp : old.isPrefixOf (c :: cs) = true
    · obtain ⟨rest, hrest⟩ := List.isPrefixOf_iff_prefix.1 hp
      rw [if_pos hp, ← hrest, List.drop_left, Option.some.injEq]
      constructor
      · rintro rfl
        exact ⟨[], rest, rfl, rfl, fun _ _ _ => Nat.zero_le _⟩
      · rintro ⟨before, after, htext, rfl, hfirst⟩
        have hnil : before = [] := List.length_eq_zero_iff.1 (Nat.le_zero.1 (hfirst [] rest rfl))
        subst hnil
        rw [List.nil_append, List.append_cancel_left_eq] at htext
        rw [List.nil_append, htext]
    · have hprefix : ¬old <+: c :: cs := fun h => hp (List.isPrefixOf_iff_prefix.2 h)
      rw [if_neg hp, Option.map_eq_some_iff]
      constructor
      · rintro ⟨r, hr, rfl⟩
        obtain ⟨before, after, hcs, rfl, hfirst⟩ := ih.1 hr
        refine ⟨c :: before, after, congrArg (c :: ·) hcs, rfl, fun before' after' h => ?_⟩
        obtain ⟨b, rfl, hb⟩ := exists_behind_first hprefix h
        exact Nat.succ_le_succ (hfirst b after' hb)
      · rintro ⟨before, after, htext, rfl, hfirst⟩
        obtain ⟨b, rfl, hcs⟩ := exists_behind_first hprefix htext
        refine ⟨b ++ new ++ after, ih.2 ⟨b, after, hcs, rfl, fun before' after' h => ?_⟩, rfl⟩
        exact Nat.le_of_succ_le_succ (hfirst (c :: before') after' (congrArg (c :: ·) h))

theorem replaced_iff {old new text result : String} :
    Replaced old new text result ↔
      old.toList ≠ [] ∧ replaceFirst? old.toList new.toList text.toList = some result.toList := by
  unfold Replaced
  have hempty : old ≠ "" ↔ old.toList ≠ [] := by simp
  rw [hempty]
  apply and_congr_right
  intro hold
  rw [replaceFirst?_eq_some_iff hold]
  constructor
  · rintro ⟨before, after, rfl, rfl, hfirst⟩
    refine ⟨before.toList, after.toList, by simp, by simp, fun b a h => ?_⟩
    have hle := hfirst (.ofList b) (.ofList a) (String.toList_inj.1 (by simpa using h))
    rwa [← String.length_toList, ← String.length_toList, String.toList_ofList] at hle
  · rintro ⟨before, after, htext, hresult, hfirst⟩
    refine ⟨.ofList before, .ofList after, String.toList_inj.1 (by simpa using htext),
      String.toList_inj.1 (by simpa using hresult), fun b a h => ?_⟩
    have hle := hfirst b.toList a.toList (by simp [h])
    rwa [← String.length_toList, ← String.length_toList, String.toList_ofList]

theorem instanceName_ok_iff {name id i : String} {replace : Option String} {place : Breadcrumb} :
    instanceName name id replace place = .ok i ↔ InstanceNamed name id replace i := by
  unfold instanceName InstanceNamed
  cases replace with
  | none => simp [eq_comm]
  | some old =>
    simp only [replaced_iff]
    by_cases hold : old.toList = []
    · have hempty : old.isEmpty = true := by simpa using hold
      simp [hempty, hold]
    · have hempty : ¬old.isEmpty = true := by simpa using hold
      rw [if_neg hempty]
      cases hr : replaceFirst? old.toList id.toList name.toList with
      | none => simp
      | some cs =>
        simp only [Except.ok.injEq, Option.some.injEq, hold, ne_eq, not_false_eq_true, true_and]
        exact ⟨fun h => by rw [← h, String.toList_ofList],
          fun h => String.toList_inj.1 (by rw [String.toList_ofList, h])⟩

theorem instanceNamed_unique {name id i j : String} {replace : Option String}
    (h : InstanceNamed name id replace i) (h' : InstanceNamed name id replace j) : i = j := by
  have hi : instanceName name id replace [] = .ok i := instanceName_ok_iff.2 h
  cases hi.symm.trans (instanceName_ok_iff.2 h')
  rfl

section

variable {name i : String} {use : BlockUse} {place : Breadcrumb} {start : Word}
  {named : List (String × Word)}

theorem instances_single_ok (hstart : use.start = .single start)
    (h : instances name use place = .ok named) : named = [(name, start)] := by
  rw [instances, hstart] at h
  dsimp only at h
  split at h
  next => cases h
  next =>
    cases h
    rfl

theorem instances_byId_ok {addresses : Named Word} (hstart : use.start = .byId addresses)
    (h : instances name use place = .ok named) :
    List.Forall₂ (fun e n => InstanceNamed name e.1 use.replace n.1 ∧ n.2 = e.2)
      addresses.entries named := by
  simp only [instances, hstart, Success.mapM_eq_ok] at h
  refine h.imp fun e n hn => ?_
  obtain ⟨i, hi, hn⟩ := Success.bind_eq_ok.1 hn
  cases hn
  exact ⟨instanceName_ok_iff.1 hi, rfl⟩

theorem mem_instances_iff (h : instances name use place = .ok named) :
    (i, start) ∈ named ↔ use.Asks name i start := by
  unfold BlockUse.Asks
  cases hstart : use.start with
  | single address =>
    rw [instances_single_ok hstart h]
    simp
  | byId addresses =>
    have hnamed := instances_byId_ok hstart h
    constructor
    · intro hmem
      obtain ⟨e, he, hn, rfl⟩ := Table.exists_of_forall₂_right hnamed hmem
      exact ⟨e.1, Table.mem_entries_iff.1 he, hn⟩
    · rintro ⟨id, hid, hn⟩
      obtain ⟨⟨j, _⟩, hmem, hj, rfl⟩ :=
        Table.exists_of_forall₂_left hnamed (Table.mem_entries_iff.2 hid)
      cases instanceNamed_unique hn hj
      exact hmem

theorem exists_instanceNamed {id : String} {addresses : Named Word}
    (h : instances name use place = .ok named) (hstart : use.start = .byId addresses)
    (hid : addresses.get? id = some start) : ∃ i, InstanceNamed name id use.replace i := by
  obtain ⟨n, -, hn, -⟩ :=
    Table.exists_of_forall₂_left (instances_byId_ok hstart h) (Table.mem_entries_iff.2 hid)
  exact ⟨n.1, hn⟩

end

end Resolve

end RegAtlas
