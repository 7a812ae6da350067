import RegAtlas.Proofs.Resolve.Assembly
import RegAtlas.Proofs.Resolve.Flaws
import Mathlib.Data.List.Flatten

namespace RegAtlas.Resolve

open scoped List
open Listing (Entry)

variable {place : Breadcrumb} {rs new : List Register} {r : Register}

/-- The register can be added after `rs`: it has a proper name, and no one has its name or its
address. -/
structure Fits (rs : List Register) (r : Register) : Prop where
  identifier : isIdentifier r.name = true
  name_free : ∀ r' ∈ rs, r'.name ≠ r.name
  address_free : ∀ r' ∈ rs, ∀ x, r'.address = some x → r.address ≠ some x

/-- Why a register cannot be added after `rs`. -/
inductive Refused (rs : List Register) (r : Register) : Cause → Prop
  | notIdentifier (h : isIdentifier r.name = false) : Refused rs r (.notIdentifier r.name)
  | nameTaken {r' : Register} (hr' : r' ∈ rs) (h : r'.name = r.name) :
      Refused rs r (.duplicateName r.name)
  | addressTaken {r' : Register} {x : Word} (hr' : r' ∈ rs) (hname : r'.name ≠ r.name)
      (hx' : r'.address = some x) (hx : r.address = some x) :
      Refused rs r (.duplicateAddress x r.name r'.name)

/-- Registers with proper names, of which no two have one name or one address. -/
structure Distinct (rs : List Register) : Prop where
  identifiers : ∀ r ∈ rs, isIdentifier r.name = true
  pairwise : rs.Pairwise fun r r' =>
    r.name ≠ r'.name ∧ ∀ x, r.address = some x → r'.address ≠ some x

namespace Distinct

theorem nil : Distinct [] := ⟨by simp, .nil⟩

theorem append_singleton (h : Distinct rs) (hr : Fits rs r) : Distinct (rs ++ [r]) := by
  refine ⟨fun r' hr' => ?_, List.pairwise_append.2 ⟨h.pairwise, List.pairwise_singleton _ _, ?_⟩⟩
  · rcases List.mem_append.1 hr' with hr' | hr'
    · exact h.identifiers r' hr'
    · rw [List.mem_singleton.1 hr']
      exact hr.identifier
  · intro r' hr' r'' hr''
    rw [List.mem_singleton.1 hr'']
    exact ⟨hr.name_free r' hr', hr.address_free r' hr'⟩

end Distinct

namespace Assembly

variable {a : Assembly} {blocks : Named BlockTemplate} {done : List Addition}

/-- The registers of the assembly are `rs`, each under its name. -/
def Holds (a : Assembly) (rs : List Register) : Prop :=
  ∀ k r, a.registers.get? k = some r ↔ r.name = k ∧ r ∈ rs

theorem Holds.fits_iff (h : a.Holds rs) :
    Fits rs r ↔ isIdentifier r.name = true ∧ a.clash? r = none := by
  rw [clash?_eq_none_iff]
  constructor
  · intro hr
    refine ⟨hr.identifier, Option.eq_none_iff_forall_ne_some.2 fun r' hr' => ?_, ?_⟩
    · obtain ⟨hname, hmem⟩ := (h _ r').1 hr'
      exact hr.name_free r' hmem hname
    · intro x hx k r' hr' hx'
      exact hr.address_free r' ((h k r').1 hr').2 x hx' hx
  · rintro ⟨hname, hfree, haddr⟩
    refine ⟨hname, fun r' hr' he => ?_, fun r' hr' x hx' hx => ?_⟩
    · rw [(h _ r').2 ⟨he, hr'⟩] at hfree
      cases hfree
    · exact haddr x hx _ r' ((h _ r').2 ⟨rfl, hr'⟩) hx'

theorem Holds.refused {cause : Cause} (h : a.Holds rs) (hclash : a.clash? r = some cause) :
    Refused rs r cause := by
  unfold clash? at hclash
  split at hclash
  next hname =>
    cases hclash
    obtain ⟨r', hr'⟩ := Option.isSome_iff_exists.1 hname
    obtain ⟨he, hmem⟩ := (h _ r').1 hr'
    exact .nameTaken hmem he
  next hname =>
    obtain ⟨x, hx, hat⟩ := Option.bind_eq_some_iff.1 hclash
    obtain ⟨n, hn, rfl⟩ := Option.map_eq_some_iff.1 hat
    obtain ⟨r', hr', rfl⟩ := Option.map_eq_some_iff.1 hn
    obtain ⟨k, hk⟩ := Table.mem_values_iff.1 (List.mem_of_find?_eq_some hr')
    obtain ⟨rfl, hmem⟩ := (h k r').1 hk
    refine .addressTaken hmem (fun he => hname ?_) (by simpa using List.find?_some hr') hx
    rw [Table.contains, ← he, hk]
    rfl

theorem add_outcome (h : a.Holds rs) :
    Outcome (fun a' => Fits rs r ∧ a'.blocks = a.blocks ∧ a'.Holds (rs ++ [r]))
      (fun f => ∃ cause, f = .located place cause ∧ Refused rs r cause) (a.add r place).result := by
  cases hres : (a.add r place).result with
  | ok a' =>
    obtain ⟨hname, hclash, -⟩ := add_ok_iff.1 hres
    obtain ⟨hblocks, hregs⟩ := add_ok hres
    refine ⟨h.fits_iff.2 ⟨hname, hclash⟩, hblocks, fun k r' => ?_⟩
    rw [hregs, h, ← and_or_left, List.mem_append, List.mem_singleton]
  | error f =>
    unfold add checkName at hres
    by_cases hname : isIdentifier r.name = true
    · cases hclash : a.clash? r with
      | none =>
        simp only [hname, if_true, hclash] at hres
        cases hres
      | some cause =>
        simp only [hname, if_true, hclash] at hres
        cases hres
        exact ⟨cause, rfl, h.refused hclash⟩
    · simp only [hname] at hres
      cases hres
      exact ⟨_, rfl, .notIdentifier (Bool.eq_false_iff.2 hname)⟩

theorem addAll_outcome (h : a.Holds rs) (hrs : Distinct rs) :
    Outcome (fun a' => Distinct (rs ++ new) ∧ a'.blocks = a.blocks ∧ a'.Holds (rs ++ new))
      (fun f => ∃ pre r post cause, new = pre ++ r :: post ∧ f = .located place cause ∧
        Refused (rs ++ pre) r cause) (a.addAll new place).result := by
  rw [addAll, Logged.result_foldlM]
  refine Outcome.foldlM (fun pre (s : Assembly) => Distinct (rs ++ pre) ∧ s.blocks = a.blocks ∧
    s.Holds (rs ++ pre)) ?_ (by simpa using ⟨hrs, h⟩)
  rintro pre r post s hnew ⟨hpre, hblocks, hs⟩
  apply (add_outcome hs).mono
  · rintro a' - ⟨hfits, hblocks', ha'⟩
    rw [List.append_assoc] at ha'
    refine ⟨?_, hblocks'.trans hblocks, ha'⟩
    rw [← List.append_assoc]
    exact hpre.append_singleton hfits
  · rintro f - ⟨cause, rfl, hcause⟩
    exact ⟨pre, r, post, cause, hnew, rfl, hcause⟩

end Assembly

def Addition.instance? : Addition → Option (String × String)
  | .register _ => none
  | .instanceOf b i _ => some (b, i)

/-- The registers that the addition brings exist: its block is there, and no address overflows. -/
def Addition.Placed (blocks : Named BlockTemplate) : Addition → Prop
  | .register _ => True
  | .instanceOf b _ start => ∃ block, blocks.get? b = some block ∧
      ∀ k t, block.registers.get? k = some t → start.toNat + t.offset.toNat < 2 ^ 64

/-- Nothing that was added is in the way of something else. -/
structure Free (blocks : Named BlockTemplate) (done : List Addition) : Prop where
  placed : ∀ x ∈ done, x.Placed blocks
  registers : Distinct (done.flatMap (Addition.registers blocks))
  instances : (done.filterMap Addition.instance?).Nodup

theorem Free.nil {blocks : Named BlockTemplate} : Free blocks [] :=
  ⟨by simp, .nil, .nil⟩

theorem Free.append_register {blocks : Named BlockTemplate} {done : List Addition}
    (h : Free blocks done) (hr : Fits (done.flatMap (Addition.registers blocks)) r) :
    Free blocks (done ++ [.register r]) := by
  refine ⟨List.forall_mem_append.2 ⟨h.placed, List.forall_mem_singleton.2 trivial⟩, ?_, ?_⟩
  · rw [List.flatMap_append]
    exact h.registers.append_singleton hr
  · rw [List.filterMap_append]
    exact (List.append_nil _).symm ▸ h.instances

/-- Why something cannot be added after `done`. -/
inductive Blamed (blocks : Named BlockTemplate) (done : List Addition) : Addition → Cause → Prop
  | register {r : Register} {cause : Cause}
      (h : Refused (done.flatMap (Addition.registers blocks)) r cause) :
      Blamed blocks done (.register r) cause
  | unknown {b i : String} {start : Word} (h : blocks.get? b = none) :
      Blamed blocks done (.instanceOf b i start) (.noSuchBlock b)
  | instanceTaken {b i : String} {start start' : Word} (h : .instanceOf b i start' ∈ done) :
      Blamed blocks done (.instanceOf b i start) (.duplicateName i)
  | overflow {b i k : String} {start : Word} {block : BlockTemplate} {t : TemplateRegister}
      (hb : blocks.get? b = some block) (ht : block.registers.get? k = some t)
      (h : ¬start.toNat + t.offset.toNat < 2 ^ 64) :
      Blamed blocks done (.instanceOf b i start) (.addressOverflow start t.offset)
  | stamped {b i : String} {start : Word} {pre post : List Register} {r : Register} {cause : Cause}
      (hplaced : (Addition.instanceOf b i start).Placed blocks)
      (hregs : (Addition.instanceOf b i start).registers blocks = pre ++ r :: post)
      (h : Refused (done.flatMap (Addition.registers blocks) ++ pre) r cause) :
      Blamed blocks done (.instanceOf b i start) cause

namespace Assembly

variable {a : Assembly} {blocks : Named BlockTemplate} {done : List Addition}

theorem stamps_outcome {b i : String} {start : Word} {block : BlockTemplate}
    (hb : blocks.get? b = some { block with instances := .empty }) :
    Outcome (fun rs => rs = block.registers.values.map (stamped b i start) ∧
        ∀ k t, block.registers.get? k = some t → start.toNat + t.offset.toNat < 2 ^ 64)
      (Fault.Within place (Blamed blocks done (.instanceOf b i start)))
      (block.registers.values.mapM (stamp b i start place)) := by
  have hstamp : ∀ t ∈ block.registers.values,
      Outcome (fun r => start.toNat + t.offset.toNat < 2 ^ 64 ∧ stamped b i start t = r)
        (Fault.Within place (Blamed blocks done (.instanceOf b i start)))
        (stamp b i start place t) := by
    intro t ht
    obtain ⟨k, hk⟩ := Table.mem_values_iff.1 ht
    cases hres : stamp b i start place t with
    | ok r => exact ⟨(stamp_ok_iff.1 hres).1, (stamp_ok_iff.1 hres).2.symm⟩
    | error f =>
      have hover : ¬start.toNat + t.offset.toNat < 2 ^ 64 := fun hlt => by
        rw [stamp_ok_iff.2 ⟨hlt, rfl⟩] at hres
        cases hres
      unfold stamp at hres
      split at hres
      next =>
        cases hres
        exact ⟨[t.name], _, rfl, .overflow hb hk hover⟩
      next => cases hres
  apply (Outcome.mapM hstamp).mono
  · intro rs _ hrs
    constructor
    · have heq := List.forall₂_map_left_iff.2 (hrs.imp fun _ _ h => h.2)
      rw [List.forall₂_eq_eq_eq] at heq
      exact heq.symm
    · intro k t hk
      obtain ⟨r, -, hlt, -⟩ :=
        Table.exists_of_forall₂_left hrs (Table.mem_values_iff.2 ⟨k, hk⟩)
      exact hlt
  · exact fun _ _ h => h

theorem Made.free_append_instance {b i : String} {start : Word} {block : BlockTemplate}
    (hm : Made blocks done a) (hb : a.blocks.get? b = some block)
    (hnew : block.instances.get? i = none) (hfree : Free blocks done)
    (hplaced : (Addition.instanceOf b i start).Placed blocks)
    (hregs : Distinct (done.flatMap (Addition.registers blocks) ++
      (Addition.instanceOf b i start).registers blocks)) :
    Free blocks (done ++ [.instanceOf b i start]) := by
  refine ⟨?_, ?_, ?_⟩
  · exact List.forall_mem_append.2 ⟨hfree.placed, List.forall_mem_singleton.2 hplaced⟩
  · rwa [List.flatMap_append, List.flatMap_singleton]
  · rw [List.filterMap_append, List.nodup_append]
    refine ⟨hfree.instances, List.nodup_singleton _, ?_⟩
    rintro p hp q hq rfl
    cases List.mem_singleton.1 hq
    obtain ⟨x, hx, he⟩ := List.mem_filterMap.1 hp
    cases x with
    | register r => cases he
    | instanceOf b' i' start' =>
      cases he
      rw [(hm.instances b block hb i start').2 hx] at hnew
      cases hnew

theorem addInstance_outcome {b : String} {n : String × Word} (hm : Made blocks done a)
    (hfree : Free blocks done) :
    Outcome (fun a' => Made blocks (done ++ [.instanceOf b n.1 n.2]) a' ∧
        Free blocks (done ++ [.instanceOf b n.1 n.2]))
      (Fault.Within place (Blamed blocks done (.instanceOf b n.1 n.2)))
      (a.addInstance b place n).result := by
  suffices Outcome (fun _ => Free blocks (done ++ [.instanceOf b n.1 n.2]))
      (Fault.Within place (Blamed blocks done (.instanceOf b n.1 n.2)))
      (a.addInstance b place n).result from
    this.mono (fun a' ha' hf => ⟨hm.addInstance ha', hf⟩) fun _ _ h => h
  unfold addInstance
  cases hb : a.blocks.get? b with
  | none =>
    have hnone : blocks.get? b = none := by
      rw [← hm.templates, hb]
      rfl
    exact ⟨["register_block_template"], _, rfl, .unknown hnone⟩
  | some block =>
    have hbare : blocks.get? b = some { block with instances := .empty } := by
      rw [← hm.templates, hb]
      rfl
    dsimp only
    split
    next htaken =>
      obtain ⟨start', hstart'⟩ := Option.isSome_iff_exists.1 htaken
      have hmem := (hm.instances b block hb n.1 start').1 hstart'
      exact ⟨[], _, by rw [List.append_nil], .instanceTaken hmem⟩
    next hnew =>
      simp only [Logged.result_bind, Logged.result_liftM, Logged.result_pure]
      refine Outcome.bind (stamps_outcome hbare) fun rs _ hstamped => ?_
      obtain ⟨hrs, hfit⟩ := hstamped
      have hplaced : (Addition.instanceOf b n.1 n.2).Placed blocks := ⟨_, hbare, hfit⟩
      have hregs : rs = (Addition.instanceOf b n.1 n.2).registers blocks := by
        rw [hrs, Addition.registers, hbare]
        rfl
      subst hregs
      refine Outcome.bind ((addAll_outcome hm.registers hfree.registers).mono
        (fun _ _ h => h.1) ?_) fun a' _ hdistinct => ?_
      · rintro f - ⟨pre, r, post, cause, hregs, rfl, hcause⟩
        exact ⟨[], cause, by rw [List.append_nil], .stamped hplaced hregs hcause⟩
      · have hnew : block.instances.get? n.1 = none := by simpa [Table.contains] using hnew
        exact hm.free_append_instance hb hnew hfree hplaced hdistinct

theorem addInstances_outcome {b : String} {named : List (String × Word)}
    (hm : Made blocks done a) (hfree : Free blocks done) :
    Outcome (fun a' => Made blocks (done ++ named.map fun n => .instanceOf b n.1 n.2) a' ∧
        Free blocks (done ++ named.map fun n => .instanceOf b n.1 n.2))
      (fun f => ∃ pre n post, named = pre ++ n :: post ∧
        Free blocks (done ++ pre.map fun n => .instanceOf b n.1 n.2) ∧ f.Within place
        (Blamed blocks (done ++ pre.map fun n => .instanceOf b n.1 n.2) (.instanceOf b n.1 n.2)))
      (named.foldlM (fun (a : Assembly) n => a.addInstance b place n) a).result := by
  rw [Logged.result_foldlM]
  refine Outcome.foldlM (fun (pre : List (String × Word)) s =>
    Made blocks (done ++ pre.map fun n => .instanceOf b n.1 n.2) s ∧
    Free blocks (done ++ pre.map fun n => .instanceOf b n.1 n.2)) ?_ (by simpa using ⟨hm, hfree⟩)
  rintro pre n post s hnamed ⟨hs, hpre⟩
  rw [List.map_append, ← List.append_assoc]
  exact (addInstance_outcome hs hpre).mono (fun _ _ h => h) fun f _ h =>
    ⟨pre, n, post, hnamed, hpre, h⟩

end Assembly

variable {context : Context} {blocks : Named BlockTemplate} {done : List Addition}

/-- Why an entry cannot be added after `done`: it has a flaw of its own, or something that it adds
is in the way or has something in its way. -/
inductive Stuck (context : Context) (place : Breadcrumb) (blocks : Named BlockTemplate)
    (done : List Addition) (e : String × Entry) (f : Fault) : Prop
  | flaw (h : ∀ added, ¬Adds context place e added)
      (hf : f.Within (place ++ [e.1]) fun cause => cause.ofElement = true)
  | blamed {pre post : List Addition} {x : Addition} (h : Adds context place e (pre ++ x :: post))
      (hfree : Free blocks (done ++ pre))
      (hf : f.Within (place ++ [e.1]) (Blamed blocks (done ++ pre) x))

theorem Stuck.of_elementary {α : Type} {x : Except Fault α} {e : String × Entry}
    (hx : Elementary (place ++ [e.1]) x)
    (h : ∀ added, Adds context place e added → ∃ y, x = .ok y) :
    Outcome (fun _ => True) (Stuck context place blocks done e) x :=
  Outcome.of_fails hx fun _ hfails hflaw => .flaw (fun added hadds =>
    have ⟨y, hy⟩ := h added hadds
    hfails y hy) hflaw

theorem entry_outcome {a : Assembly} {e : String × Entry} (hm : Assembly.Made blocks done a)
    (hfree : Free blocks done) :
    Outcome (fun a' => ∃ added, Adds context place e added ∧
        Assembly.Made blocks (done ++ added) a' ∧ Free blocks (done ++ added))
      (Stuck context place blocks done e) (entry context place a e).result := by
  obtain ⟨name, e⟩ := e
  cases e with
  | register spec =>
    simp only [entry, Logged.result_bind]
    refine Outcome.bind (Stuck.of_elementary register_elementary fun _ ⟨r, hr, _⟩ => ⟨r, hr⟩)
      fun r hr _ => ?_
    have hadds : Adds context place (name, .register spec) [.register r] := ⟨r, hr, rfl⟩
    refine (Assembly.add_outcome hm.registers).mono ?_ ?_
    · rintro a' ha' ⟨hfits, -, -⟩
      exact ⟨_, hadds, hm.add ha', hfree.append_register hfits⟩
    · rintro f - ⟨cause, rfl, hcause⟩
      rw [← List.append_nil done] at hfree hcause
      exact .blamed hadds hfree ⟨[], cause, by rw [List.append_nil], .register hcause⟩
  | block use =>
    simp only [entry, Logged.result_bind, Logged.result_liftM]
    refine Outcome.bind (Stuck.of_elementary instances_elementary fun _ ⟨named, hn, _⟩ =>
      ⟨named, hn⟩) fun named hnamed _ => ?_
    refine (Assembly.addInstances_outcome hm hfree).mono ?_ ?_
    · rintro a' - ⟨hmade, hfree'⟩
      exact ⟨_, ⟨named, hnamed, rfl⟩, hmade, hfree'⟩
    · rintro f - ⟨pre, n, post, rfl, hfree', hf⟩
      exact .blamed ⟨_, hnamed, by rw [List.map_append, List.map_cons]⟩ hfree' hf

/-- A run over entries adds what they add, or stops at an entry that is stuck. -/
theorem entries_outcome {es : List (String × Entry)} {a : Assembly}
    (hm : Assembly.Made blocks [] a) :
    Outcome (fun a' => ∃ parts, List.Forall₂ (Adds context place) es parts ∧
        Assembly.Made blocks parts.flatten a' ∧ Free blocks parts.flatten)
      (fun f => ∃ before e after parts, es = before ++ e :: after ∧
        List.Forall₂ (Adds context place) before parts ∧
        Stuck context place blocks parts.flatten e f)
      (es.foldlM (entry context place) a).result := by
  rw [Logged.result_foldlM]
  refine Outcome.foldlM (fun before s => ∃ parts,
    List.Forall₂ (Adds context place) before parts ∧
    Assembly.Made blocks parts.flatten s ∧ Free blocks parts.flatten) ?_
    ⟨[], .nil, hm, .nil⟩
  rintro before e after s hes ⟨parts, hparts, hs, hfree⟩
  apply (entry_outcome hs hfree).mono
  · rintro a' - ⟨added, hadds, hmade, hfree'⟩
    refine ⟨parts ++ [added], List.rel_append hparts (.cons hadds .nil), ?_⟩
    rw [List.flatten_append, List.flatten_singleton]
    exact ⟨hmade, hfree'⟩
  · intro f _ hf
    exact ⟨before, e, after, parts, hes, hparts, hf⟩

theorem entries_ok {es : List (String × Entry)} {a a' : Assembly}
    (hm : Assembly.Made blocks [] a) (h : (es.foldlM (entry context place) a).result = .ok a') :
    ∃ parts, List.Forall₂ (Adds context place) es parts ∧
      Assembly.Made blocks parts.flatten a' ∧ Free blocks parts.flatten := by
  have houtcome : Outcome _ _ (es.foldlM (entry context place) a).result := entries_outcome hm
  rwa [h] at houtcome

theorem Adds.unique {e : String × Entry} {added added' : List Addition}
    (h : Adds context place e added) (h' : Adds context place e added') : added = added' := by
  obtain ⟨name, e⟩ := e
  cases e with
  | register spec =>
    obtain ⟨r, hr, rfl⟩ := h
    obtain ⟨r', hr', rfl⟩ := h'
    cases hr.symm.trans hr'
    rfl
  | block use =>
    obtain ⟨named, hnamed, rfl⟩ := h
    obtain ⟨named', hnamed', rfl⟩ := h'
    cases hnamed.symm.trans hnamed'
    rfl

theorem Free.sublist {done' : List Addition} (h : Free blocks done) (hs : done' <+ done) :
    Free blocks done' where
  placed x hx := h.placed x (hs.subset hx)
  registers := {
    identifiers := fun r hr => h.registers.identifiers r ((hs.flatMap _).subset hr)
    pairwise := h.registers.pairwise.sublist (hs.flatMap _) }
  instances := h.instances.sublist (hs.filterMap _)

theorem Distinct.not_refused {pre post : List Register} {r : Register} {cause : Cause}
    (h : Distinct (pre ++ r :: post)) : ¬Refused pre r cause := by
  have hr {r' : Register} (hr' : r' ∈ pre) := (List.pairwise_append.1 h.pairwise).2.2 r' hr' r
    List.mem_cons_self
  intro hrefused
  cases hrefused with
  | notIdentifier hname =>
    rw [h.identifiers r (by simp)] at hname
    cases hname
  | nameTaken hr' hname => exact (hr hr').1 hname
  | addressTaken hr' _ hx' hx => exact (hr hr').2 _ hx' hx

theorem Free.not_blamed {rest : List Addition} {x : Addition} {cause : Cause}
    (h : Free blocks (done ++ x :: rest)) : ¬Blamed blocks done x cause := by
  have hregs := h.registers
  rw [List.flatMap_append, List.flatMap_cons] at hregs
  have hplaced : x.Placed blocks := h.placed x (by simp)
  intro hblamed
  cases hblamed with
  | register hr => exact hregs.not_refused hr
  | unknown hb =>
    obtain ⟨block, hblock, -⟩ := hplaced
    cases hb.symm.trans hblock
  | instanceTaken hmem =>
    have hinstances := h.instances
    rw [List.filterMap_append, List.nodup_append] at hinstances
    exact hinstances.2.2 _ (List.mem_filterMap.2 ⟨_, hmem, rfl⟩) _ (by simp [Addition.instance?])
      rfl
  | overflow hb ht hover =>
    obtain ⟨block, hblock, hfit⟩ := hplaced
    cases hb.symm.trans hblock
    exact hover (hfit _ _ ht)
  | stamped _ hx hr =>
    rw [hx, List.append_assoc, List.cons_append, ← List.append_assoc] at hregs
    exact hregs.not_refused hr

theorem parts_unique {es : List (String × Entry)} {parts parts' : List (List Addition)}
    (h : List.Forall₂ (Adds context place) es parts)
    (h' : List.Forall₂ (Adds context place) es parts') : parts = parts' :=
  List.right_unique_forall₂' (R := Adds context place) (fun _ _ _ hx hy => hx.unique hy) h h'

theorem exists_entries_ok {es : List (String × Entry)} {parts : List (List Addition)} {a : Assembly}
    (hm : Assembly.Made blocks [] a) (hparts : List.Forall₂ (Adds context place) es parts)
    (hfree : Free blocks parts.flatten) : ∃ a',
      (es.foldlM (entry context place) a).result = .ok a' ∧
        Assembly.Made blocks parts.flatten a' := by
  have houtcome : Outcome _ _ (es.foldlM (entry context place) a).result := entries_outcome hm
  cases hres : (es.foldlM (entry context place) a).result with
  | ok a' =>
    rw [hres] at houtcome
    obtain ⟨parts', hparts', hmade, -⟩ := houtcome
    exact ⟨a', rfl, parts_unique hparts' hparts ▸ hmade⟩
  | error f =>
    rw [hres] at houtcome
    obtain ⟨before, e, after, done, rfl, hdone, hstuck⟩ := houtcome
    obtain ⟨done', added, rest, rfl, hdone', hadded, -⟩ :=
      Table.exists_of_forall₂_append_cons hparts
    cases parts_unique hdone' hdone
    cases hstuck with
    | flaw h => exact absurd hadded (h added)
    | @blamed pre post x h _ hf =>
      cases hadded.unique h
      obtain ⟨_, cause, -, hblamed⟩ := hf
      have hfree : Free blocks (done.flatten ++ pre ++ x :: (post ++ rest.flatten)) := by
        simpa using hfree
      exact absurd hblamed hfree.not_blamed

end RegAtlas.Resolve
