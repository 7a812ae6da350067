import RegAtlas.Proofs.Resolve.Collision
import RegAtlas.Proofs.Resolve.Expansion
import Mathlib.Data.List.Duplicate
import Mathlib.Data.List.Flatten

namespace RegAtlas

open scoped List
open Resolve (Addition Adds Blamed Distinct Free Refused stamped)

namespace Listing

def BlockUse.named (use : BlockUse) (name : String) : List (String × Word) :=
  match use.start with
  | .single address => [(name, address)]
  | .byId addresses => addresses.entries.filterMap fun e =>
      (Resolve.instanceName name e.1 use.replace []).toOption.map fun i => (i, e.2)

/-- The names and the addresses of the registers of an instance of the block `b`. -/
def stampedAt (l : Listing) (b i : String) (start : Word) : List (String × Option Nat) :=
  (l.blocks.get? b).elim [] fun spec =>
    spec.registers.entries.map fun t => (i ++ t.1, some (start.toNat + t.2.offset.toNat))

def Entry.denoted (l : Listing) (name : String) : Entry → List (String × Option Nat)
  | .register spec => [(name, spec.address.map BitVec.toNat)]
  | .block use => (use.named name).flatMap fun n => l.stampedAt use.block n.1 n.2

/-- The names and the addresses of all registers. -/
def denoted (l : Listing) : List (String × Option Nat) :=
  l.registers.entries.flatMap fun e => e.2.denoted l e.1

def Entry.asked (name : String) : Entry → List (String × String)
  | .register _ => []
  | .block use => (use.named name).map fun n => (use.block, n.1)

/-- The blocks and the names of all instances. -/
def asked (l : Listing) : List (String × String) :=
  l.registers.entries.flatMap fun e => e.2.asked e.1

structure CollisionFree (l : Listing) : Prop where
  identifiers : ∀ r ∈ l.denoted, Identifier r.1
  names : (l.denoted.map Prod.fst).Nodup
  addresses : (l.denoted.filterMap Prod.snd).Nodup
  instances : l.asked.Nodup

/-- Each element of the listing can be resolved on its own, with `shared` for the shared
enumerations. What it refers to is there, and each register of an instance has an address. -/
structure ElementsResolve (l : Listing) (shared : Named Enumeration) : Prop where
  name : Identifier l.name
  docs : ∃ docs, Resolve.docs l.brief l.doc [l.name] = .ok docs
  width : ∀ w, l.defaultWidth = some w → 1 ≤ w ∧ w ≤ wordSize
  enums : (Resolve.table (fun name spec =>
    liftM (Resolve.sharedEnum [l.name, "enums"] name spec)) l.enums).result = .ok shared
  blocks : ∀ b spec, l.blocks.get? b = some spec → ∃ block, (Resolve.block
    ⟨l.defaultWidth, shared⟩ [l.name, "register_block_templates"] b spec).result = .ok block
  registers : ∀ k spec, l.registers.get? k = some (.register spec) → ∃ r, (Resolve.register
    ⟨l.defaultWidth, shared⟩ [l.name, "registers", k] k spec).result = .ok r
  uses : ∀ k use, l.registers.get? k = some (.block use) →
    ∃ named, Resolve.instances k use [l.name, "registers", k] = .ok named
  known : ∀ b i start, l.Instantiates b i start → ∃ spec, l.blocks.get? b = some spec ∧
    ∀ k t, spec.registers.get? k = some t → start.toNat + t.offset.toNat < 2 ^ 64

/-- What there is in the listing when resolving stops in the registers section for this cause, and
not for a flaw of a single element. -/
inductive Conflict (l : Listing) : Cause → Prop
  | notIdentifier {name : String} {address : Option Nat} (h : (name, address) ∈ l.denoted)
      (hname : ¬Identifier name) : Conflict l (.notIdentifier name)
  | sameName {name : String} (h : List.Duplicate name (l.denoted.map Prod.fst)) :
      Conflict l (.duplicateName name)
  | sameInstance {b i : String} (h : List.Duplicate (b, i) l.asked) :
      Conflict l (.duplicateName i)
  | sameAddress {a : Word} {name existing : String} (hne : name ≠ existing)
      (h : (name, some a.toNat) ∈ l.denoted) (h' : (existing, some a.toNat) ∈ l.denoted) :
      Conflict l (.duplicateAddress a name existing)
  | unknown {b i : String} {start : Word} (h : l.Instantiates b i start)
      (hb : l.blocks.get? b = none) : Conflict l (.noSuchBlock b)
  | overflow {b i k : String} {start : Word} {spec : BlockSpec} {t : TemplateSpec}
      (h : l.Instantiates b i start) (hb : l.blocks.get? b = some spec)
      (ht : spec.registers.get? k = some t) (hover : ¬start.toNat + t.offset.toNat < 2 ^ 64) :
      Conflict l (.addressOverflow start t.offset)

end Listing

namespace Resolve

open Listing (BlockUse Entry)

variable {context : Context} {place : Breadcrumb} {l : Listing} {blocks : Named BlockTemplate}
  {done added : List Addition}

theorem filterMap_of_forall₂ {α β : Type} {f : α → Option β} {xs : List α} {ys : List β}
    (h : List.Forall₂ (fun x y => f x = some y) xs ys) : xs.filterMap f = ys := by
  induction h with
  | nil => rfl
  | cons hxy _ ih => rw [List.filterMap_cons_some hxy, ih]

theorem flatMap_of_forall₂ {α β γ : Type} {f : α → List γ} {g : β → List γ} {xs : List α}
    {ys : List β} (h : List.Forall₂ (fun x y => f x = g y) xs ys) :
    xs.flatMap f = ys.flatMap g := by
  induction h with
  | nil => rfl
  | cons hxy _ ih => rw [List.flatMap_cons, List.flatMap_cons, hxy, ih]

theorem named_of_instances {name : String} {use : BlockUse} {named : List (String × Word)}
    (h : instances name use place = .ok named) : use.named name = named := by
  unfold BlockUse.named
  cases hstart : use.start with
  | single address => rw [instances_single_ok hstart h]
  | byId addresses =>
    refine filterMap_of_forall₂ ((instances_byId_ok hstart h).imp fun e n ⟨hi, hn⟩ => ?_)
    rw [instanceName_ok_iff.2 hi, ← hn]
    rfl

theorem mem_named_iff {use : BlockUse} {name i : String} {start : Word} :
    (i, start) ∈ use.named name ↔ use.Asks name i start := by
  have hok (id : String) : instanceName name id use.replace [] = .ok i ↔
      Listing.InstanceNamed name id use.replace i := instanceName_ok_iff
  have named_iff (e : String × Word) :
      ((instanceName name e.1 use.replace []).toOption.map fun j => (j, e.2)) = some (i, start) ↔
        e.2 = start ∧ Listing.InstanceNamed name e.1 use.replace i := by
    rw [← hok]
    cases instanceName name e.1 use.replace [] <;> simp [Except.toOption, and_comm]
  cases hstart : use.start with
  | single address => simp [BlockUse.named, BlockUse.Asks, hstart]
  | byId addresses =>
    simp only [BlockUse.named, BlockUse.Asks, hstart, List.mem_filterMap, named_iff]
    constructor
    · rintro ⟨e, he, rfl, hi⟩
      exact ⟨e.1, Table.mem_entries_iff.1 he, hi⟩
    · rintro ⟨id, hid, hi⟩
      exact ⟨(id, start), Table.mem_entries_iff.2 hid, rfl, hi⟩

def spot (r : Register) : String × Option Nat := (r.name, r.address.map BitVec.toNat)

def Addition.denoted (l : Listing) : Addition → List (String × Option Nat)
  | .register r => [spot r]
  | .instanceOf b i start => l.stampedAt b i start

theorem Adds.denoted {e : String × Entry} (h : Adds context place e added) :
    e.2.denoted l e.1 = added.flatMap (Addition.denoted l) := by
  obtain ⟨name, e⟩ := e
  cases e with
  | register spec =>
    obtain ⟨r, hr, rfl⟩ := h
    have hr := register_ok hr
    rw [List.flatMap_singleton, Entry.denoted, Addition.denoted, spot, hr.name, hr.address]
  | block use =>
    obtain ⟨named, hnamed, rfl⟩ := h
    rw [List.flatMap_map, Entry.denoted, named_of_instances hnamed]
    rfl

theorem Adds.asked {e : String × Entry} (h : Adds context place e added) :
    e.2.asked e.1 = added.filterMap Addition.instance? := by
  obtain ⟨name, e⟩ := e
  cases e with
  | register spec =>
    obtain ⟨r, -, rfl⟩ := h
    rfl
  | block use =>
    obtain ⟨named, hnamed, rfl⟩ := h
    rw [List.filterMap_map, Entry.asked, named_of_instances hnamed, ← List.filterMap_eq_map]
    rfl

theorem Adds.instantiates {e : String × Entry} {b i : String} {start : Word}
    (h : Adds context place e added) (he : e ∈ l.registers.entries)
    (hi : .instanceOf b i start ∈ added) : l.Instantiates b i start := by
  obtain ⟨use, huse, hasks⟩ := h.instanceOf_mem_iff.1 hi
  exact ⟨e.1, use, huse ▸ Table.mem_entries_iff.1 he, hasks⟩

theorem denoted_of_adds {es : List (String × Entry)} {parts : List (List Addition)}
    (h : List.Forall₂ (Adds context place) es parts) :
    es.flatMap (fun e => e.2.denoted l e.1) = parts.flatten.flatMap (Addition.denoted l) := by
  rw [← List.flatMap_id, List.flatMap_assoc]
  exact flatMap_of_forall₂ (h.imp fun _ _ h => h.denoted)

theorem asked_of_adds {es : List (String × Entry)} {parts : List (List Addition)}
    (h : List.Forall₂ (Adds context place) es parts) :
    es.flatMap (fun e => e.2.asked e.1) = parts.flatten.filterMap Addition.instance? := by
  rw [List.filterMap_flatten]
  exact flatMap_of_forall₂ (h.imp fun _ _ h => h.asked)

theorem Refused.conflict {rs : List Register} {r : Register} {cause : Cause}
    (h : Refused rs r cause) (hrs : (rs ++ [r]).map spot <+ l.denoted) : l.Conflict cause := by
  have hmem {r' : Register} (hr' : r' ∈ rs) : spot r' ∈ l.denoted :=
    hrs.subset (List.mem_map_of_mem (List.mem_append_left _ hr'))
  have hlast : spot r ∈ l.denoted := hrs.subset (List.mem_map_of_mem (by simp))
  cases h with
  | notIdentifier h =>
    refine .notIdentifier hlast fun hid => ?_
    rw [isIdentifier_iff.2 hid] at h
    cases h
  | nameTaken hr' h =>
    refine .sameName (List.duplicate_iff_sublist.2 (.trans ?_ (hrs.map Prod.fst)))
    rw [List.map_map, List.map_append]
    exact .append (List.singleton_sublist.2 (List.mem_map.2 ⟨_, hr', h⟩)) (.refl _)
  | addressTaken hr' hne hx' hx =>
    have h := hmem hr'
    rw [spot, hx'] at h
    rw [spot, hx] at hlast
    exact .sameAddress hne.symm hlast h

section Templates

variable (htemplates : Table.Pointwise (fun b spec block =>
  (Resolve.block context place b spec).result = .ok block) l.blocks.entries blocks.entries)
include htemplates

theorem Addition.denoted_eq {x : Addition} (hx : x.Placed blocks) :
    x.denoted l = (x.registers blocks).map spot := by
  cases x with
  | register r => rfl
  | instanceOf b i start =>
    obtain ⟨block, hb, hfit⟩ := hx
    obtain ⟨spec, hspec, hblock⟩ := htemplates.exists_left hb
    have haddress : ∀ e ∈ block.registers.entries, spot (stamped b i start e.2) =
        (i ++ e.2.name, some (start.toNat + e.2.offset.toNat)) := by
      intro e he
      have hlt := hfit e.1 e.2 (Table.mem_entries_iff.1 he)
      rw [spot, stamped, Option.map_some, BitVec.toNat_add_of_lt hlt]
    have hnames : spec.registers.entries.map
          (fun t => (i ++ t.1, some (start.toNat + t.2.offset.toNat))) =
        block.registers.entries.map
          (fun t => (i ++ t.2.name, some (start.toNat + t.2.offset.toNat))) := by
      rw [← List.forall₂_eq_eq_eq, List.forall₂_map_left_iff, List.forall₂_map_right_iff]
      exact (block_ok hblock).registers.imp fun e f hef => by rw [hef.2.2.name, hef.2.2.offset]
    rw [Addition.denoted, Listing.stampedAt, hspec, Addition.registers, hb]
    simp only [Option.elim_some, Table.values, List.map_map]
    exact hnames.trans (List.map_congr_left haddress).symm

theorem denoted_eq (hplaced : ∀ x ∈ done, x.Placed blocks) :
    done.flatMap (Addition.denoted l) = (done.flatMap (Addition.registers blocks)).map spot := by
  rw [List.map_flatMap]
  exact List.flatMap_congr fun x hx => Addition.denoted_eq htemplates (hplaced x hx)

theorem Blamed.conflict {x : Addition} {cause : Cause} (h : Blamed blocks done x cause)
    (hdone : ∀ y ∈ done, y.Placed blocks)
    (hdenoted : (done ++ [x]).flatMap (Addition.denoted l) <+ l.denoted)
    (hasked : (done ++ [x]).filterMap Addition.instance? <+ l.asked)
    (hx : ∀ b i start, x = .instanceOf b i start → l.Instantiates b i start) :
    l.Conflict cause := by
  have hplaced (hx : x.Placed blocks) : ∀ y ∈ done ++ [x], y.Placed blocks :=
    List.forall_mem_append.2 ⟨hdone, List.forall_mem_singleton.2 hx⟩
  cases h with
  | register h =>
    rw [denoted_eq htemplates (hplaced trivial), List.flatMap_append] at hdenoted
    exact h.conflict hdenoted
  | unknown hb =>
    refine .unknown (hx _ _ _ rfl) (Option.eq_none_iff_forall_ne_some.2 fun spec hspec => ?_)
    obtain ⟨block, hblock, -⟩ := htemplates.exists_right hspec
    rw [hb] at hblock
    cases hblock
  | @instanceTaken b i start start' hmem =>
    have hmem : (b, i) ∈ done.filterMap Addition.instance? :=
      List.mem_filterMap.2 ⟨_, hmem, rfl⟩
    rw [List.filterMap_append] at hasked
    have htwice : [(b, i), (b, i)] <+ l.asked :=
      .trans (.append (List.singleton_sublist.2 hmem) (.refl _)) hasked
    exact .sameInstance (List.duplicate_iff_sublist.2 htwice)
  | overflow hb ht hover =>
    obtain ⟨spec, hspec, hblock⟩ := htemplates.exists_left hb
    obtain ⟨tspec, htspec, -, htemplate⟩ := (block_ok hblock).registers.exists_left ht
    rw [htemplate.offset] at hover ⊢
    exact .overflow (hx _ _ _ rfl) hspec htspec hover
  | @stamped b i start pre post r _ hnew hregs h =>
    rw [denoted_eq htemplates (hplaced hnew), List.flatMap_append, List.flatMap_singleton,
      hregs] at hdenoted
    refine h.conflict (.trans (.map _ ?_) hdenoted)
    rw [List.append_assoc]
    exact ((List.Sublist.refl _).append (List.singleton_sublist.2 List.mem_cons_self)).append_left _

theorem Free.collisionFree (h : Free blocks done)
    (hdenoted : l.denoted = done.flatMap (Addition.denoted l))
    (hasked : l.asked = done.filterMap Addition.instance?) : l.CollisionFree := by
  rw [denoted_eq htemplates h.placed] at hdenoted
  have hpairwise := h.registers.pairwise
  refine ⟨?_, ?_, ?_, ?_⟩
  · rw [hdenoted]
    intro p hp
    obtain ⟨r, hr, rfl⟩ := List.mem_map.1 hp
    exact isIdentifier_iff.1 (h.registers.identifiers r hr)
  · rw [hdenoted, List.map_map]
    exact List.pairwise_map.2 (hpairwise.imp fun hne => hne.1)
  · rw [hdenoted, List.filterMap_map]
    refine List.pairwise_filterMap.2 (hpairwise.imp fun hne x hx y hy he => ?_)
    obtain ⟨a, ha, rfl⟩ := Option.map_eq_some_iff.1 hx
    obtain ⟨a', ha', rfl⟩ := Option.map_eq_some_iff.1 hy
    rw [← BitVec.eq_of_toNat_eq he] at ha'
    exact hne.2 a ha ha'
  · rw [hasked]
    exact h.instances

end Templates

theorem exists_table_ok {α β : Type} {f : String → α → Build β} {t : Named α}
    (h : ∀ k a, t.get? k = some a → ∃ b, (f k a).result = .ok b) :
    ∃ u, (table f t).result = .ok u := by
  simp only [table, Logged.result_bind, Logged.result_mapM, Logged.result_pure,
    Success.bind_eq_ok]
  have hentries (e) (he : e ∈ t.entries) :
      ∃ d, ((f e.1 e.2).result.bind fun b => .ok (e.1, b)) = .ok d := by
    obtain ⟨b, hb⟩ := h e.1 e.2 (Table.mem_entries_iff.1 he)
    exact ⟨_, Success.bind_eq_ok.2 ⟨b, hb, rfl⟩⟩
  obtain ⟨es, hes, -⟩ := Success.exists_mapM_eq_ok hentries
  exact ⟨_, es, hes, rfl⟩

end Resolve

namespace Listing

variable {l : Listing} {shared : Named Enumeration} {cause : Cause}

theorem Conflict.not_collisionFree (h : l.Conflict cause) (hl : l.ElementsResolve shared) :
    ¬l.CollisionFree := by
  intro hfree
  cases h with
  | notIdentifier h hname => exact hname (hfree.identifiers _ h)
  | sameName h => exact h.not_nodup hfree.names
  | sameInstance h => exact h.not_nodup hfree.instances
  | @sameAddress a name existing hne h h' =>
    have hpairwise := List.pairwise_filterMap.1 hfree.addresses
    have : Std.Symm fun p q : String × Option Nat =>
        ∀ x, p.2 = some x → ∀ y, q.2 = some y → x ≠ y :=
      ⟨fun p q hpq x hx y hy he => hpq y hy x hx he.symm⟩
    exact hpairwise.forall h h' (fun he => hne (congrArg Prod.fst he)) _ rfl _ rfl rfl
  | unknown h hb =>
    obtain ⟨spec, hspec, -⟩ := hl.known _ _ _ h
    rw [hb] at hspec
    cases hspec
  | overflow h hb ht hover =>
    obtain ⟨spec, hspec, hfit⟩ := hl.known _ _ _ h
    cases hb.symm.trans hspec
    exact hover (hfit _ _ ht)

/-- Why a listing is not resolved: an element or a block template of it is not, or there is a
conflict in the registers section. -/
inductive Halted (l : Listing) (f : Fault) : Prop
  | element (h : ∀ shared, ¬l.ElementsResolve shared)
      (hf : f.Within [l.name] fun cause => cause.ofElement = true)
  | template (h : ∀ shared, ¬l.ElementsResolve shared)
      (hf : f.Within [l.name, "register_block_templates"] Resolve.BlockFlaw)
  | conflict (hf : f.Within [l.name, "registers"] l.Conflict)

theorem Halted.of_elementary {α : Type} {x : Except Fault α} (inner : Breadcrumb)
    (hx : Resolve.Elementary ([l.name] ++ inner) x)
    (h : ∀ shared, l.ElementsResolve shared → ∃ a, x = .ok a) :
    Outcome (fun _ => True) l.Halted x :=
  Outcome.of_fails hx fun _ hfails hflaw => .element (fun shared hl =>
    have ⟨a, ha⟩ := h shared hl
    hfails a ha) hflaw.inside

theorem ElementsResolve.exists_adds (hl : l.ElementsResolve shared) {e : String × Entry}
    (he : e ∈ l.registers.entries) :
    ∃ added, Adds ⟨l.defaultWidth, shared⟩ [l.name, "registers"] e added := by
  -- In a listing of which each element can be resolved, each entry adds something.
  obtain ⟨name, e⟩ := e
  cases e with
  | register spec =>
    obtain ⟨r, hr⟩ := hl.registers name spec (Table.mem_entries_iff.1 he)
    exact ⟨_, r, hr, rfl⟩
  | block use =>
    obtain ⟨named, hnamed⟩ := hl.uses name use (Table.mem_entries_iff.1 he)
    exact ⟨_, named, hnamed, rfl⟩

theorem entries_outcome {blocks : Named BlockTemplate} {a : Resolve.Assembly}
    (hl : (Resolve.table (fun name spec =>
      liftM (Resolve.sharedEnum [l.name, "enums"] name spec)) l.enums).result = .ok shared)
    (htemplates : Table.Pointwise (fun b spec block => (Resolve.block ⟨l.defaultWidth, shared⟩
      [l.name, "register_block_templates"] b spec).result = .ok block)
      l.blocks.entries blocks.entries)
    (hm : Resolve.Assembly.Made blocks [] a) :
    Outcome (fun _ => l.CollisionFree) l.Halted (l.registers.entries.foldlM
      (Resolve.entry ⟨l.defaultWidth, shared⟩ [l.name, "registers"]) a).result := by
  apply (Resolve.entries_outcome hm).mono
  · rintro a' - ⟨parts, hparts, -, hfree⟩
    exact hfree.collisionFree htemplates (Resolve.denoted_of_adds hparts)
      (Resolve.asked_of_adds hparts)
  · rintro f - ⟨before, e, after, parts, hes, hparts, hstuck⟩
    have he : e ∈ l.registers.entries := by simp [hes]
    cases hstuck with
    | flaw h hf =>
      have hf : f.Within ([l.name] ++ ["registers", e.1]) fun cause => cause.ofElement = true := hf
      refine .element (fun shared' hl' => ?_) hf.inside
      cases hl.symm.trans hl'.enums
      obtain ⟨added, hadds⟩ := hl'.exists_adds he
      exact h added hadds
    | @blamed pre post x h hfree hf =>
      -- What was added until the failure is a part of what the entries up to `e` add.
      have hparts := List.rel_append hparts (.cons h .nil)
      have hentries : before ++ [e] <+ l.registers.entries := by
        rw [hes]
        exact (List.singleton_sublist.2 List.mem_cons_self).append_left _
      have hadded : parts.flatten ++ pre ++ [x] <+ (parts ++ [pre ++ x :: post]).flatten := by
        rw [List.flatten_append, List.flatten_singleton, List.append_assoc]
        exact ((List.singleton_sublist.2 List.mem_cons_self).append_left _).append_left _
      refine .conflict (hf.inside.mono fun cause hcause => hcause.conflict htemplates hfree.placed
        (.trans (hadded.flatMap _) ?_) (.trans (hadded.filterMap _) ?_) ?_)
      · rw [← Resolve.denoted_of_adds hparts]
        exact hentries.flatMap _
      · rw [← Resolve.asked_of_adds hparts]
        exact hentries.flatMap _
      · rintro b i start rfl
        exact h.instantiates he (by simp)

section Stages

theorem width_outcome : Outcome (fun _ => True) l.Halted (l.defaultWidth.mapM fun w =>
    Resolve.checkWidth w ([l.name] ++ ["default_register_bitwidth"])) := by
  cases hw : l.defaultWidth with
  | none => trivial
  | some w =>
    refine Halted.of_elementary ["default_register_bitwidth"]
      (Resolve.Elementary.map Resolve.checkWidth_elementary) fun shared hl => ⟨some w, ?_⟩
    exact Success.map_eq_ok.2 ⟨w, if_pos (hl.width w hw), rfl⟩

theorem enums_outcome : Outcome (fun _ => True) l.Halted (Resolve.table (fun name spec =>
    liftM (Resolve.sharedEnum ([l.name] ++ ["enums"]) name spec)) l.enums).result :=
  Halted.of_elementary ["enums"]
    (Resolve.table_outcome fun _ _ => Resolve.Elementary.inside Resolve.sharedEnum_elementary)
    fun shared hl => ⟨shared, hl.enums⟩

theorem blocks_outcome
    (hshared : (Resolve.table (fun name spec =>
      liftM (Resolve.sharedEnum [l.name, "enums"] name spec)) l.enums).result = .ok shared) :
    Outcome (fun _ => True) l.Halted (Resolve.table (Resolve.block ⟨l.defaultWidth, shared⟩
      ([l.name] ++ ["register_block_templates"])) l.blocks).result := by
  have hblock (e : String × BlockSpec) (_ : e ∈ l.blocks.entries) :
      Outcome (fun _ => True) (Fault.Within [l.name, "register_block_templates"] Resolve.BlockFlaw)
        (Resolve.block ⟨l.defaultWidth, shared⟩ [l.name, "register_block_templates"] e.1
          e.2).result :=
    Resolve.block_flaws.mono_error fun _ h => h.inside
  refine (Resolve.table_outcome hblock).of_fails fun f hfails hflaw =>
    .template (fun shared' hl => ?_) hflaw
  cases hshared.symm.trans hl.enums
  obtain ⟨blocks, hblocks⟩ := Resolve.exists_table_ok hl.blocks
  exact hfails blocks hblocks

end Stages

/-- A listing that is resolved is free of collisions, and one that is not has a flaw in an element
or a conflict in the registers section. -/
theorem resolve_outcome (l : Listing) :
    Outcome (fun _ => l.CollisionFree) l.Halted l.resolve.result := by
  simp only [resolve, Logged.result_bind, Logged.result_liftM, Logged.result_report,
    Logged.result_pure]
  have hname : Outcome (fun _ => True) l.Halted
      (Resolve.checkName l.name ([l.name] ++ ["map_name"])) :=
    Halted.of_elementary ["map_name"] Resolve.checkName_elementary fun shared hl =>
      ⟨(), if_pos (Resolve.isIdentifier_iff.2 hl.name)⟩
  have hdocs : Outcome (fun _ => True) l.Halted (Resolve.docs l.brief l.doc [l.name]) :=
    Halted.of_elementary [] Resolve.docs_elementary fun shared hl => hl.docs
  refine hname.bind fun _ _ _ => hdocs.bind fun docs _ _ => ?_
  refine width_outcome.bind fun width _ _ => enums_outcome.bind fun enums henums _ => ?_
  refine Outcome.bind (P := fun _ => True) trivial fun _ _ _ => ?_
  refine (blocks_outcome henums).bind fun blocks hblocks _ => ?_
  exact (entries_outcome henums (Resolve.table_ok hblocks)
    (Resolve.Assembly.Made.start_of_table hblocks)).bind fun _ _ h => h

theorem Halted.not_collisionFree {f : Fault} (h : l.Halted f) (hl : l.ElementsResolve shared) :
    ¬l.CollisionFree := by
  intro hfree
  cases h with
  | element h => exact h shared hl
  | template h => exact h shared hl
  | conflict hf =>
    obtain ⟨inner, cause, -, hcause⟩ := hf
    exact hcause.not_collisionFree hl hfree

theorem Halted.of_duplicateAddress {place : Breadcrumb} {a : Word} {name existing : String}
    (h : l.Halted (.located place (.duplicateAddress a name existing)))
    (hplace : [l.name, "registers"] <+: place) :
    l.Conflict (.duplicateAddress a name existing) := by
  cases h with
  | element _ hf =>
    obtain ⟨inner, cause, he, hcause⟩ := hf
    cases he
    cases hcause
  | template _ hf =>
    obtain ⟨inner, cause, he, -⟩ := hf
    cases he
    simp at hplace
  | conflict hf =>
    obtain ⟨inner, cause, he, hcause⟩ := hf
    cases he
    exact hcause

theorem Halted.of_duplicateName {place : Breadcrumb} {name : String}
    (h : l.Halted (.located place (.duplicateName name))) : l.Conflict (.duplicateName name) := by
  cases h with
  | element _ hf =>
    obtain ⟨inner, cause, he, hcause⟩ := hf
    cases he
    cases hcause
  | template _ hf =>
    obtain ⟨inner, cause, he, hcause | ⟨_, _, _, hcause⟩⟩ := hf
    · cases he
      cases hcause
    · cases he
      cases hcause
  | conflict hf =>
    obtain ⟨inner, cause, he, hcause⟩ := hf
    cases he
    exact hcause

/-- When the elements of a listing can be resolved, the listing can exactly if its registers have
proper names and no name, address or instance occurs twice. What a failure says is taken twice is
taken twice. -/
theorem collisions_exact (l : Listing) :
    (∀ shared, l.ElementsResolve shared →
      ((∃ m, l.resolve.result = .ok m) ↔ l.CollisionFree)) ∧
    (∀ place a name existing,
      l.resolve.result = .error (.located place (.duplicateAddress a name existing)) →
      [l.name, "registers"] <+: place → name ≠ existing ∧
        (name, some a.toNat) ∈ l.denoted ∧ (existing, some a.toNat) ∈ l.denoted) ∧
    ∀ place name, l.resolve.result = .error (.located place (.duplicateName name)) →
      List.Duplicate name (l.denoted.map Prod.fst) ∨ ∃ b, List.Duplicate (b, name) l.asked := by
  have houtcome := l.resolve_outcome
  refine ⟨fun shared hl => ⟨fun ⟨m, hm⟩ => ?_, fun hfree => ?_⟩, ?_, ?_⟩
  · rwa [hm] at houtcome
  · cases hres : l.resolve.result with
    | ok m => exact ⟨m, rfl⟩
    | error f =>
      rw [hres] at houtcome
      exact absurd hfree (Halted.not_collisionFree houtcome hl)
  · intro place a name existing hres hplace
    rw [hres] at houtcome
    cases Halted.of_duplicateAddress houtcome hplace with
    | sameAddress hne h h' => exact ⟨hne, h, h'⟩
  · intro place name hres
    rw [hres] at houtcome
    cases Halted.of_duplicateName houtcome with
    | sameName h => exact .inl h
    | sameInstance h => exact .inr ⟨_, h⟩

def crowdedChip : Listing :=
  { chip with registers := chip.registers.insert "SPARE" (.register
      { fields := .empty
        address := some 0x104#64
        width := none
        access := none
        resetValue := none
        alwaysWrite := none
        brief := none
        doc := none }) }

theorem crowdedChip_elementsResolve : crowdedChip.ElementsResolve .empty where
  name := Resolve.isIdentifier_iff.1 (by decide +kernel)
  docs := ⟨⟨none, none⟩, rfl⟩
  width w h := by
    cases h
    decide
  enums := rfl
  blocks b spec h := by
    have hall : ∀ e ∈ crowdedChip.blocks.entries, (Resolve.block ⟨crowdedChip.defaultWidth, .empty⟩
      [crowdedChip.name, "register_block_templates"] e.1 e.2).result.isOk = true := by
      decide +kernel
    exact Success.exists_of_isOk (hall (b, spec) (Table.mem_entries_iff.2 h))
  registers k spec h := by
    have hall : ∀ e ∈ crowdedChip.registers.entries, (match e.2 with
      | .register spec => (Resolve.register ⟨crowdedChip.defaultWidth, .empty⟩
        [crowdedChip.name, "registers", e.1] e.1 spec).result.isOk
      | .block _ => true) = true := by
      decide +kernel
    exact Success.exists_of_isOk (hall (k, .register spec) (Table.mem_entries_iff.2 h))
  uses k use h := by
    have hall : ∀ e ∈ crowdedChip.registers.entries, (match e.2 with
      | .register _ => true
      | .block use => (Resolve.instances e.1 use [crowdedChip.name, "registers", e.1]).isOk)
          = true := by
      decide +kernel
    exact Success.exists_of_isOk (hall (k, .block use) (Table.mem_entries_iff.2 h))
  known b i start h := by
    obtain ⟨name, use, huse, rfl, hi⟩ := h
    have hall : ∀ e ∈ crowdedChip.registers.entries, (match e.2 with
      | .register _ => true
      | .block use => (use.named e.1).all fun n => (crowdedChip.blocks.get? use.block).any
          fun spec => spec.registers.entries.all fun t => n.2.toNat + t.2.offset.toNat < 2 ^ 64)
          = true := by
      decide +kernel
    have hfit := List.all_eq_true.1 (hall (name, .block use) (Table.mem_entries_iff.2 huse))
      (i, start) (Resolve.mem_named_iff.2 hi)
    obtain ⟨spec, hspec, hfit⟩ := (Option.any_eq_true _ _).1 hfit
    exact ⟨spec, hspec, fun k t ht =>
      of_decide_eq_true (List.all_eq_true.1 hfit (k, t) (Table.mem_entries_iff.2 ht))⟩

theorem crowdedChip_collides : crowdedChip.ElementsResolve .empty ∧ ¬crowdedChip.CollisionFree ∧
    ("SPARE", some 0x104) ∈ crowdedChip.denoted ∧
    ("CH0_CONTROL", some 0x104) ∈ crowdedChip.denoted := by
  have herror : crowdedChip.resolve.result = .error (.located ["chip", "registers", "SPARE"]
      (.duplicateAddress 0x104#64 "SPARE" "CH0_CONTROL")) := by decide +kernel
  obtain ⟨hiff, haddress, -⟩ := collisions_exact crowdedChip
  refine ⟨crowdedChip_elementsResolve, fun hfree => ?_, (haddress _ _ _ _ herror (by decide)).2⟩
  obtain ⟨m, hm⟩ := (hiff _ crowdedChip_elementsResolve).2 hfree
  rw [herror] at hm
  cases hm

end Listing

end RegAtlas
