import RegAtlas.Proofs.CHeader.Content
import RegAtlas.Proofs.CHeader.MacroMap

namespace RegAtlas.CHeader

/-- What a header declares and C code refers to, by its kind and its name. -/
inductive Symbol where
  | enumeration (tag : String)
  | struct (tag : String)
  | function (name : String)
deriving DecidableEq

def MemberType.uses : MemberType → List Symbol
  | word _ => []
  | enumeration tag => [.enumeration tag]

def Function.uses : Function → List Symbol
  | overwrite _ tag _ _ _ => [.struct tag]
  | pack _ tag _ through | unpack _ tag _ through => [.struct tag, .function through]
  | unpackInto _ tag _ steps => .struct tag :: steps.flatMap (·.type.uses)

namespace Item

def declares : Item → List Symbol
  | enumeration decl => [.enumeration decl.tag]
  | struct decl => [.struct decl.tag]
  | function f => [.function f.name]
  | _ => []

def uses : Item → List Symbol
  | struct decl => decl.members.flatMap (·.type.uses)
  | function f => f.uses
  | dispatch d => d.cases.flatMap fun c => [.struct c.1, .function c.2]
  | _ => []

def dispatches : Item → List Dispatch
  | dispatch d => [d]
  | _ => []

end Item

namespace Header

variable {known known' : List Symbol} {h h' : Header} {item : Item}

def declares (h : Header) : List Symbol := h.flatMap Item.declares

def dispatches (h : Header) : List Dispatch := h.flatMap Item.dispatches

/-- Each item uses what is known or has been declared before the item. -/
def ClosedOver (known : List Symbol) (h : Header) : Prop :=
  ∀ pre item post, h = pre ++ item :: post → ∀ x ∈ item.uses, x ∈ known ∨ x ∈ declares pre

theorem declares_append : (h ++ h').declares = h.declares ++ h'.declares := List.flatMap_append

theorem mem_declares_cons {x : Symbol} :
    x ∈ declares (item :: h) ↔ x ∈ item.declares ∨ x ∈ h.declares := by
  rw [declares, List.flatMap_cons, List.mem_append]
  rfl

theorem mem_declares_of_mem {x : Symbol} (hi : item ∈ h) (hx : x ∈ item.declares) :
    x ∈ h.declares :=
  List.mem_flatMap.2 ⟨item, hi, hx⟩

theorem dispatches_append : (h ++ h').dispatches = h.dispatches ++ h'.dispatches :=
  List.flatMap_append

theorem dispatches_eq_nil (hnone : ∀ d, .dispatch d ∉ h) : h.dispatches = [] := by
  refine List.flatMap_eq_nil_iff.2 fun item hi => ?_
  cases item with
  | dispatch d => exact absurd hi (hnone d)
  | _ => rfl

theorem closedOver_nil : ClosedOver known [] := by
  intro pre item post h
  simp at h

theorem closedOver_cons : ClosedOver known (item :: h) ↔
    (∀ x ∈ item.uses, x ∈ known) ∧ h.ClosedOver (known ++ item.declares) := by
  constructor
  · refine fun hc => ⟨fun x hx => ?_, fun pre item' post he x hx => ?_⟩
    · exact (hc [] item h rfl x hx).resolve_right List.not_mem_nil
    · have hx := hc (item :: pre) item' post (by rw [he, List.cons_append]) x hx
      rwa [mem_declares_cons, ← or_assoc, ← List.mem_append] at hx
  · rintro ⟨huses, hc⟩ pre item' post he x hx
    cases pre with
    | nil =>
      obtain ⟨rfl, -⟩ := List.cons.inj he
      exact .inl (huses x hx)
    | cons first pre =>
      obtain ⟨rfl, rfl⟩ := List.cons.inj he
      rw [mem_declares_cons, ← or_assoc, ← List.mem_append]
      exact hc pre item' post rfl x hx

theorem ClosedOver.mono (hc : h.ClosedOver known) (hsub : ∀ x ∈ known, x ∈ known') :
    h.ClosedOver known' :=
  fun pre item post he x hx => (hc pre item post he x hx).imp_left (hsub x)

theorem ClosedOver.append (hc : h.ClosedOver known)
    (hc' : h'.ClosedOver (known ++ h.declares)) : (h ++ h').ClosedOver known := by
  induction h generalizing known with
  | nil => simpa [declares] using hc'
  | cons item h ih =>
    obtain ⟨huses, hc⟩ := closedOver_cons.1 hc
    refine closedOver_cons.2 ⟨huses, ih hc (hc'.mono fun x hx => ?_)⟩
    rwa [List.mem_append, mem_declares_cons, ← or_assoc, ← List.mem_append, ← List.mem_append] at hx

theorem ClosedOver.flatMap {α : Type} {f : α → Header} {as : List α}
    (hc : ∀ a ∈ as, (f a).ClosedOver known) : ClosedOver known (as.flatMap f) := by
  induction as with
  | nil => exact closedOver_nil
  | cons a as ih =>
    obtain ⟨ha, has⟩ := List.forall_mem_cons.1 hc
    exact ha.append ((ih has).mono fun x hx => List.mem_append_left _ hx)

theorem closedOver_of_known (hc : ∀ item ∈ h, ∀ x ∈ item.uses, x ∈ known) : h.ClosedOver known := by
  rintro pre item post rfl x hx
  exact .inl (hc item (List.mem_append_right _ List.mem_cons_self) x hx)

theorem closedOver_of_uses_nil (hc : ∀ item ∈ h, item.uses = []) : h.ClosedOver known :=
  closedOver_of_known fun item hi x hx => by rw [hc item hi] at hx; cases hx

end Header

section Frame

variable {m : RegisterMap} {s : Setting} {generator : String} {item : Item}

theorem uses_of_mem_opening (hi : item ∈ opening m s generator) : item.uses = [] := by
  rw [opening, List.mem_append, List.mem_append] at hi
  rcases hi with (hi | hi) | hi
  · split at hi
    · cases List.mem_singleton.1 hi
      rfl
    · cases hi
  · simp only [List.mem_cons, List.not_mem_nil, or_false] at hi
    rcases hi with rfl | rfl | rfl | rfl <;> rfl
  · obtain ⟨file, -, rfl⟩ := List.mem_map.1 hi
    rfl

theorem uses_of_mem_closing (hi : item ∈ closing m s) : item.uses = [] := by
  rw [closing, List.mem_append] at hi
  rcases hi with hi | hi
  · simp only [List.mem_cons, List.not_mem_nil, or_false] at hi
    rcases hi with rfl | rfl <;> rfl
  · split at hi
    · cases List.mem_singleton.1 hi
      rfl
    · cases hi

end Frame

namespace FuncPack

open Header (ClosedOver closedOver_cons closedOver_nil closedOver_of_known closedOver_of_uses_nil)

variable {n : Naming} {bitFields : Bool} {l : Layout} {f : Field} {e : Enumeration}
  {m : RegisterMap} {s : Setting} {generator : String} {known : List Symbol}

/-- The enumerations that members of the layout have from the map are known. -/
def SharedKnown (n : Naming) (l : Layout) (known : List Symbol) : Prop :=
  ∀ f ∈ l.fieldsByPosition, ∀ e, f.enumeration = some e → e.shared = true →
    .enumeration (n.enumTag e.name) ∈ known

theorem typeOf_uses (hknown : SharedKnown n l known) (hf : f ∈ l.fieldsByPosition) :
    ∀ x ∈ (typeOf n l f).uses, x ∈ known ++ (localEnumItems n l).declares := by
  unfold typeOf
  cases he : f.enumeration with
  | none => exact List.forall_mem_nil _
  | some e =>
    refine List.forall_mem_singleton.2 (List.mem_append.2 ?_)
    cases hshared : e.shared with
    | true =>
      rw [enumBase_of_shared hshared]
      exact .inl (hknown f hf e he hshared)
    | false =>
      have hdecl := enumDecl_mem_localEnumItems (n := n) hf he hshared
      exact .inr (Header.mem_declares_of_mem hdecl (List.mem_singleton.2 rfl))

theorem localEnumItems_closed : (localEnumItems n l).ClosedOver known := by
  refine ClosedOver.flatMap fun _ _ => closedOver_of_uses_nil fun item hi => ?_
  simp only [List.mem_cons, List.not_mem_nil, or_false] at hi
  rcases hi with rfl | rfl <;> rfl

/-- The struct, then the function that overwrites before the one that packs through it, and the one
that unpacks into a struct before the one that unpacks through it. -/
theorem structItemsOf_closed
    (htypes : ∀ f ∈ l.fieldsByPosition, ∀ x ∈ (typeOf n l f).uses, x ∈ known) :
    (structItemsOf n bitFields l).ClosedOver known := by
  have hmembers : ∀ x, ∀ member ∈ (codec n bitFields l).members, x ∈ member.type.uses →
      x ∈ known := by
    simpa [codec, memberOf] using fun x f hf hx => htypes f hf x hx
  have hsteps : ∀ x, ∀ step ∈ (codec n bitFields l).unpackSteps, x ∈ step.type.uses →
      x ∈ known := by
    simpa [codec, unpackStepOf] using fun x f hf hx => htypes f hf x hx
  simpa [structItemsOf, closedOver_cons, closedOver_nil, Item.uses, Item.declares, Function.uses,
    Function.name] using ⟨hmembers, fun x step hs hx => .inl (hsteps x step hs hx)⟩

theorem itemsOf_closed (hknown : SharedKnown n l known) :
    (itemsOf n bitFields l).ClosedOver known := by
  have hfront (ds : List Define) (title : String) : ClosedOver known ([.blank, .banner title] ++
      if ds.isEmpty then [] else [.blank, .defines (ds.map some)]) := by
    cases ds <;> simp [closedOver_cons, closedOver_nil, Item.uses]
  refine ((hfront _ _).append localEnumItems_closed).append ?_
  cases l.fields.isEmpty with
  | true => exact closedOver_nil
  | false =>
    refine structItemsOf_closed fun f hf x hx => ?_
    rcases List.mem_append.1 (typeOf_uses hknown hf x hx) with hx | hx
    · exact List.mem_append_left _ hx
    · rw [Header.declares_append]
      exact List.mem_append_right _ (List.mem_append_right _ hx)

theorem sharedEnumItems_closed : (sharedEnumItems n m).ClosedOver known := by
  refine closedOver_of_uses_nil fun item hi => ?_
  rw [sharedEnumItems] at hi
  split at hi
  · cases hi
  · simp only [List.mem_append, List.mem_cons, List.mem_flatMap, List.not_mem_nil, or_false] at hi
    rcases hi with (rfl | rfl) | ⟨e, -, rfl | rfl⟩ <;> rfl

/-- The struct of a layout with fields and the functions between it and register values. -/
def symbolsOf (n : Naming) (l : Layout) : List Symbol :=
  .struct (n.structTag l) :: operations.map fun what => .function (n.function l what)

theorem symbolsOf_declared (hl : l.fields.isEmpty = false) {x : Symbol} (hx : x ∈ symbolsOf n l) :
    x ∈ (itemsOf n bitFields l).declares := by
  rw [itemsOf, hl, if_neg Bool.false_ne_true, Header.declares_append]
  refine List.mem_append_right _ ?_
  simp only [symbolsOf, operations, List.map_cons, List.map_nil, List.mem_cons, List.not_mem_nil,
    or_false] at hx
  simp only [Header.declares, structItemsOf, List.flatMap_cons, Item.declares, Function.name, codec,
    List.nil_append, List.mem_append, List.mem_singleton]
  tauto

theorem dispatch_uses {ls : List Layout} {name parameters what : String}
    (hls : ∀ l ∈ ls, .struct (n.structTag l) ∈ known ∧ .function (n.function l what) ∈ known) :
    ∀ x ∈ (dispatch n ls name parameters what).uses, x ∈ known := by
  intro x hx
  simp only [dispatch, Item.uses, List.flatMap_map, List.mem_flatMap, List.mem_cons,
    List.not_mem_nil, or_false] at hx
  obtain ⟨l, hl, rfl | rfl⟩ := hx
  · exact (hls l hl).1
  · exact (hls l hl).2

theorem dispatchItems_closed {ls : List Layout} (hls : ∀ l ∈ ls, ∀ x ∈ symbolsOf n l, x ∈ known) :
    (dispatchItems n ls).ClosedOver known := by
  simp only [symbolsOf, operations, List.map_cons, List.map_nil, List.forall_mem_cons] at hls
  rw [dispatchItems]
  split
  · exact closedOver_nil
  · refine closedOver_of_known ?_
    simp only [List.forall_mem_cons]
    have hnil : ∀ x ∈ ([] : List Symbol), x ∈ known := List.forall_mem_nil _
    refine ⟨hnil, hnil, hnil, hnil, ?_, hnil, hnil, ?_, hnil, hnil, ?_, List.forall_mem_nil _⟩
    · exact dispatch_uses fun l hl => ⟨(hls l hl).1, (hls l hl).2.1⟩
    · exact dispatch_uses fun l hl => ⟨(hls l hl).1, (hls l hl).2.2.1⟩
    · exact dispatch_uses fun l hl => ⟨(hls l hl).1, (hls l hl).2.2.2.1⟩

theorem mem_packedLayouts_iff : l ∈ packedLayouts m ↔ l ∈ m.layouts ∧ l.fields.isEmpty = false := by
  simp [packedLayouts]

theorem headerOf_closed
    (hm : ∀ l ∈ m.layouts,
      SharedKnown (Naming.of m s.config) l (sharedEnumItems (Naming.of m s.config) m).declares) :
    (headerOf m s generator).ClosedOver [] := by
  refine (((ClosedOver.append ?_ sharedEnumItems_closed).append ?_).append ?_).append ?_
  · exact closedOver_of_uses_nil fun item hi => uses_of_mem_opening hi
  · refine ClosedOver.flatMap fun l hl => itemsOf_closed fun f hf e he hshared => ?_
    rw [Header.declares_append]
    exact List.mem_append_right _ (List.mem_append_right _ (hm l hl f hf e he hshared))
  · split
    · refine dispatchItems_closed fun l hl x hx => ?_
      obtain ⟨hl, hfields⟩ := mem_packedLayouts_iff.1 hl
      rw [Header.declares_append]
      refine List.mem_append_right _ (List.mem_append_right _ ?_)
      obtain ⟨item, hitem, hx⟩ := List.mem_flatMap.1 (symbolsOf_declared hfields hx)
      exact List.mem_flatMap.2 ⟨item, List.mem_flatMap.2 ⟨l, hl, hitem⟩, hx⟩
    · exact closedOver_nil
  · exact closedOver_of_uses_nil fun item hi => uses_of_mem_closing hi

/-- The macros that choose a function by the type of a struct: what the name of each ends in, its
parameters, and what the functions do that it chooses from. -/
def choices : List (String × String × String) :=
  [("OVERWRITE", "_struct_ptr, _val", "overwrite"), ("PACK", "_struct_ptr", "pack"),
    ("UNPACK_INTO", "_val, _struct_ptr", "unpack_into")]

/-- The macro of a choice, with one case for each layout. -/
def dispatchOf (n : Naming) (ls : List Layout) (choice : String × String × String) : Dispatch where
  name := n.macros ++ "_" ++ choice.1
  parameters := choice.2.1
  cases := ls.map fun l => (n.structTag l, n.function l choice.2.2)

theorem dispatches_dispatchItems {ls : List Layout} : (dispatchItems n ls).dispatches =
    if ls.isEmpty then [] else choices.map (dispatchOf n ls) := by
  rw [dispatchItems]
  split <;> rfl

theorem dispatches_headerOf : (headerOf m s generator).dispatches =
    if s.config.dispatchMacros && !(packedLayouts m).isEmpty then
      choices.map (dispatchOf (Naming.of m s.config) (packedLayouts m)) else [] := by
  simp only [headerOf, Header.dispatches_append]
  rw [Header.dispatches_eq_nil (h := opening m s generator) (by simp [opening]),
    Header.dispatches_eq_nil (h := sharedEnumItems _ m) (by simp [sharedEnumItems]),
    Header.dispatches_eq_nil (h := m.layouts.flatMap _)
      (by simp [itemsOf, localEnumItems, structItemsOf]),
    Header.dispatches_eq_nil (h := closing m s) (by simp [closing])]
  cases s.config.dispatchMacros with
  | false => rfl
  | true =>
    rw [if_pos rfl, dispatches_dispatchItems]
    cases (packedLayouts m).isEmpty <;> simp

theorem sharedKnown_of_coherent (hm : m.Coherent) (hl : l ∈ m.layouts) :
    SharedKnown n l (sharedEnumItems n m).declares := by
  intro f hf e he hshared
  have hdecl := enumDecl_mem_sharedEnumItems (n := n) (shared_mem_enums hm hl hf he hshared)
  exact Header.mem_declares_of_mem hdecl (List.mem_singleton.2 rfl)

/-- Nothing is used before it is declared, and what each layout with fields asks for is declared.
The macros that choose a function by the type of a struct know the structs of these layouts. -/
structure InOrder (m : RegisterMap) (c : Config) (h : Header) : Prop where
  declared : ∀ pre item post, h = pre ++ item :: post → ∀ x ∈ item.uses, x ∈ Header.declares pre
  symbols : ∀ l ∈ m.layouts, l.fields.isEmpty = false → ∀ x ∈ symbolsOf (Naming.of m c) l,
    x ∈ h.declares
  enumerations : ∀ l ∈ m.layouts, ∀ f ∈ l.fieldsByPosition, ∀ e, f.enumeration = some e →
    .enumeration ((Naming.of m c).enumTag ((Naming.of m c).enumBase l e)) ∈ h.declares
  /-- There is one case for each layout with fields, and none for a layout without. -/
  dispatches : h.dispatches =
    let layouts := m.layouts.filter (!·.fields.isEmpty)
    if c.dispatchMacros && !layouts.isEmpty then
      choices.map (dispatchOf (Naming.of m c) layouts) else []
  layouts_nodup : m.layouts.Nodup

end FuncPack

end RegAtlas.CHeader
