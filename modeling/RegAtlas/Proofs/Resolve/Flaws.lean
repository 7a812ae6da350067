import RegAtlas.Proofs.Outcome
import RegAtlas.Proofs.Resolve.RangePositions

namespace RegAtlas

/-- Causes that lie in one element alone, and not in its name or its address being taken. -/
def Cause.ofElement : Cause → Bool
  | .duplicateAddress _ _ _ | .duplicateName _ | .unreadable | .stated _ _ => false
  | .bit (.emptyRange _ _) | .bit (.positionTooLarge _) => true
  | .bit _ => false
  | _ => true

/-- The fault lies at `place` or inside it, and has a cause of the given kind. -/
def Fault.Within (place : Breadcrumb) (P : Cause → Prop) (f : Fault) : Prop :=
  ∃ inner cause, f = .located (place ++ inner) cause ∧ P cause

theorem Fault.Within.inside {place more : Breadcrumb} {P : Cause → Prop} {f : Fault}
    (h : f.Within (place ++ more) P) : f.Within place P := by
  obtain ⟨inner, cause, rfl, hcause⟩ := h
  exact ⟨more ++ inner, cause, by rw [List.append_assoc], hcause⟩

theorem Fault.Within.mono {place : Breadcrumb} {P Q : Cause → Prop} {f : Fault}
    (h : f.Within place P) (hPQ : ∀ cause, P cause → Q cause) : f.Within place Q := by
  obtain ⟨inner, cause, rfl, hcause⟩ := h
  exact ⟨inner, cause, rfl, hPQ cause hcause⟩

/-- The fault is a flaw of an element, and lies at `place` itself. -/
def Fault.FlawAt (place : Breadcrumb) (f : Fault) : Prop :=
  ∃ cause : Cause, f = .located place cause ∧ cause.ofElement = true

theorem Fault.FlawAt.within {place inner : Breadcrumb} {f : Fault} (h : f.FlawAt (place ++ inner)) :
    f.Within place fun cause => cause.ofElement = true := by
  obtain ⟨cause, rfl, hcause⟩ := h
  exact ⟨inner, cause, rfl, hcause⟩

theorem Breadcrumb.text_append_singleton {place : Breadcrumb} (h : place ≠ []) (name : String) :
    Breadcrumb.text (place ++ [name]) = place.text ++ (" -> " ++ name) := by
  induction place with
  | nil => exact absurd rfl h
  | cons first rest ih =>
    cases rest with
    | nil =>
      rw [List.singleton_append, text, text, String.intercalate_cons_cons,
        String.intercalate_singleton, String.intercalate_singleton, String.append_assoc]
    | cons second rest =>
      have hrest := ih (List.cons_ne_nil _ _)
      simp only [text, List.cons_append, String.intercalate_cons_cons] at hrest ⊢
      rw [hrest]
      simp only [String.append_assoc]

namespace Resolve

open Listing (AccessSpec AlwaysWriteSpec BitItem BitSpec BlockSpec BlockUse EntrySpec EnumSpec
  FieldSpec RegisterSpec SharedEnumSpec TemplateSpec ValueSpec)

variable {α β : Type} {place : Breadcrumb} {name : String} {context : Context}

/-- The computation fails for flaws of an element at `place` only. -/
def Elementary (place : Breadcrumb) (x : Except Fault α) : Prop :=
  Outcome (fun _ => True) (Fault.Within place fun cause => cause.ofElement = true) x

namespace Elementary

variable {x : Except Fault α} {f : α → Except Fault β} {cause : Cause}

theorem ok {a : α} : Elementary place (.ok a) := trivial

theorem refuse_inside {more : Breadcrumb} (h : cause.ofElement = true) :
    Elementary place (refuse (α := α) (place ++ more) cause) := ⟨more, cause, rfl, h⟩

theorem refuse_at (h : cause.ofElement = true) :
    Elementary place (refuse (α := α) place cause) := ⟨[], cause, by rw [List.append_nil], h⟩

theorem inside {more : Breadcrumb} (h : Elementary (place ++ more) x) : Elementary place x :=
  Outcome.mono_error h fun _ h => h.inside

theorem bind (hx : Elementary place x) (hf : ∀ a, x = .ok a → Elementary place (f a)) :
    Elementary place (x.bind f) := Outcome.bind hx fun a ha _ => hf a ha

theorem map {f : α → β} (hx : Elementary place x) : Elementary place (x.map f) :=
  Outcome.map hx fun _ _ => trivial

theorem mapM {xs : List α} (h : ∀ x ∈ xs, Elementary place (f x)) :
    Elementary place (xs.mapM f) :=
  (Outcome.mapM (R := fun _ _ => True) h).mono (fun _ _ _ => trivial) fun _ _ h => h

end Elementary

theorem Elementary.of_flawAt {x : Except Fault α}
    (h : Outcome (fun _ => True) (Fault.FlawAt place) x) : Elementary place x := by
  rw [← List.append_nil place] at h
  exact h.mono_error fun _ => Fault.FlawAt.within

theorem checkName_flaws : Outcome (fun _ => True) (Fault.FlawAt place) (checkName name place) := by
  unfold checkName
  split
  · trivial
  · exact ⟨_, rfl, rfl⟩

theorem checkName_elementary : Elementary place (checkName name place) :=
  .of_flawAt checkName_flaws

theorem checkWidth_flaws {w : Nat} :
    Outcome (fun _ => True) (Fault.FlawAt place) (checkWidth w place) := by
  unfold checkWidth
  split
  · trivial
  · exact ⟨_, rfl, rfl⟩

theorem checkWidth_elementary {w : Nat} : Elementary place (checkWidth w place) :=
  .of_flawAt checkWidth_flaws

theorem width_elementary {given default : Option Nat} :
    Elementary place (width given default place) := by
  unfold width
  split
  · exact .inside checkWidth_elementary
  · exact .refuse_inside rfl

theorem briefFlaw?_ofElement {brief : String} {cause : Cause} (h : briefFlaw? brief = some cause) :
    cause.ofElement = true := by
  unfold briefFlaw? at h
  split_ifs at h <;> cases h <;> rfl

theorem docs_flaws {brief doc : Option String} :
    Outcome (fun _ => True) (fun f => ∃ part ∈ ["brief", "doc"], f.FlawAt (place ++ [part]))
      (docs brief doc place) := by
  unfold docs
  split
  next cause h =>
    obtain ⟨text, -, h⟩ := Option.bind_eq_some_iff.1 h
    exact ⟨"brief", by simp, cause, rfl, briefFlaw?_ofElement h⟩
  next =>
    split
    · exact ⟨"doc", by simp, _, rfl, rfl⟩
    · trivial

theorem docs_elementary {brief doc : Option String} : Elementary place (docs brief doc place) :=
  docs_flaws.mono_error fun _ ⟨_, _, h⟩ => h.within

theorem addAccesses_elementary {modes : List String} {found : List Access} :
    Elementary place (addAccesses place modes found) := by
  induction modes generalizing found with
  | nil => exact .ok
  | cons mode modes ih =>
    unfold addAccesses
    split
    · exact ih
    · exact .refuse_inside rfl

theorem access_elementary {spec : Option AccessSpec} : Elementary place (access spec place) := by
  unfold access
  split
  · exact .ok
  · exact addAccesses_elementary

theorem entryList_elementary {specs : List (String × EntrySpec)} {seen : List (Word × String)} :
    Elementary place (entryList place specs seen) := by
  induction specs generalizing seen with
  | nil => exact .ok
  | cons e specs ih =>
    unfold entryList
    refine .bind (.inside checkName_elementary) fun _ _ => ?_
    split
    · exact .refuse_inside rfl
    · refine .bind (.inside docs_elementary) fun d _ => ?_
      exact .bind ih fun es _ => .ok

theorem entries_elementary {specs : Named EntrySpec} : Elementary place (entries specs place) := by
  unfold entries
  split
  · exact .refuse_at rfl
  · exact .map entryList_elementary

theorem sharedEnum_elementary {spec : SharedEnumSpec} :
    Elementary (place ++ [name]) (sharedEnum place name spec) := by
  refine .bind checkName_elementary fun _ _ => ?_
  refine .bind docs_elementary fun d _ => ?_
  exact .bind entries_elementary fun es _ => .ok

theorem fieldEnum_elementary {shared : Named Enumeration} {docs : Docs} {spec : Option EnumSpec} :
    Elementary place (fieldEnum shared name docs place spec) := by
  unfold fieldEnum
  split
  · exact .ok
  · split
    · exact .ok
    · exact .refuse_inside rfl
  · exact .bind (.inside entries_elementary) fun es _ => .ok

def Positional (place : Breadcrumb) (x : Except Fault α) : Prop :=
  Outcome (fun _ => True)
    (fun f => ∃ cause, f = .located place cause ∧ cause.kind = .range ∧ cause.ofElement = true) x

namespace Positional

variable {x : Except Fault α} {f : α → Except Fault β} {cause : Cause}

theorem ok {a : α} : Positional place (.ok a) := trivial

theorem refuse_at (hkind : cause.kind = .range) (h : cause.ofElement = true) :
    Positional place (refuse (α := α) place cause) := ⟨cause, rfl, hkind, h⟩

theorem bind (hx : Positional place x) (hf : ∀ a, x = .ok a → Positional place (f a)) :
    Positional place (x.bind f) := Outcome.bind hx fun a ha _ => hf a ha

theorem map {f : α → β} (hx : Positional place x) : Positional place (x.map f) :=
  Outcome.map hx fun _ _ => trivial

theorem mapM {xs : List α} (h : ∀ x ∈ xs, Positional place (f x)) :
    Positional place (xs.mapM f) :=
  (Outcome.mapM (R := fun _ _ => True) h).mono (fun _ _ _ => trivial) fun _ _ h => h

theorem elementary (h : Positional place x) : Elementary place x := by
  refine h.mono_error fun _ hfault => ?_
  obtain ⟨cause, rfl, -, hcause⟩ := hfault
  exact ⟨[], cause, by rw [List.append_nil], hcause⟩

end Positional

theorem rangePositions_positional {text : String} :
    Positional place (rangePositions text place) := by
  have h := rangePositions_outcome text place
  generalize rangePositions text place = r at h ⊢
  cases h with
  | positions => exact .ok
  | tooLarge | invalid => exact .refuse_at rfl rfl

theorem itemPositions_positional {item : BitItem} :
    Positional place (itemPositions place item) := by
  cases item with
  | bit position => exact .ok
  | range text => exact rangePositions_positional

theorem make_positional {lsb width : Nat} :
    Positional place (atPlace place (BitRange.make lsb width)) := by
  unfold atPlace BitRange.make
  split
  · exact .refuse_at rfl rfl
  · dsimp only
    split
    · exact .ok
    · exact .refuse_at rfl rfl

theorem ofList?_positional {ps : List Nat} :
    Positional place (atPlace place (BitSet.ofList? ps)) := by
  unfold atPlace BitSet.ofList?
  split
  · exact .refuse_at rfl rfl
  · exact .ok

theorem components_positional {spec : BitSpec} : Positional place (components place spec) := by
  cases spec with
  | bit position => exact .ok
  | range text => exact .map rangePositions_positional
  | span lsb width => exact .map make_positional
  | list items => exact .mapM fun item _ => itemPositions_positional

theorem positions_positional {spec : BitSpec} : Positional place (positions spec place) := by
  refine .bind components_positional fun cs _ => ?_
  dsimp only
  split
  · exact .refuse_at rfl rfl
  · split
    · exact .refuse_at rfl rfl
    · exact .ok

theorem bits_positional {spec : BitSpec} :
    Positional (place ++ ["bits"]) (bits spec place).result := by
  simp only [bits, Logged.result_bind, Logged.result_liftM, Logged.result_report]
  refine .bind positions_positional fun ps _ => ?_
  exact .bind .ok fun _ _ => ofList?_positional

theorem bits_elementary {spec : BitSpec} : Elementary place (bits spec place).result :=
  .inside bits_positional.elementary

theorem itemPositions_ok {item : BitItem} {ps : List Nat}
    (h : itemPositions place item = .ok ps) : ∃ p, p ∈ ps := by
  cases item with
  | bit position =>
    cases h
    exact ⟨position, List.mem_singleton_self _⟩
  | range text =>
    obtain ⟨m, n, -, -, -, hps⟩ := rangePositions_ok_iff_isSpan.1 h
    exact ⟨min m n, (hps.mem_iff _).2 ⟨le_rfl, min_le_max⟩⟩

theorem placedValue_elementary {item : BitItem} {value : Word} :
    Elementary place (placedValue place item value) := by
  refine .bind itemPositions_positional.elementary fun ps hps => ?_
  refine .bind ofList?_positional.elementary fun component hcomponent => ?_
  split
  · -- The lowest bit is there, since an item is never without positions.
    obtain ⟨p, hp⟩ := itemPositions_ok hps
    obtain ⟨-, rfl⟩ := BitSet.ofList?_eq_ok_iff.1 (Success.mapError_eq_ok.1 hcomponent)
    obtain ⟨l, hl⟩ := BitSet.exists_lsb? (BitSet.mem_ofPositions.2 hp)
    rw [BitSet.lsb, hl]
    exact .ok
  · exact .refuse_at rfl

theorem joinValues_elementary {items : List (BitItem × Word)} {joined : Word} :
    Elementary place (joinValues place items joined) := by
  induction items generalizing joined with
  | nil => exact .ok
  | cons e items ih => exact .bind placedValue_elementary fun v _ => ih

theorem writtenValue_elementary {bits : BitSpec} {value : ValueSpec} :
    Elementary place (writtenValue place bits value) := by
  unfold writtenValue
  split
  · exact .ok
  · split
    · split
      · exact joinValues_elementary
      · exact .refuse_at rfl
    · exact .refuse_at rfl

theorem alwaysWrite_elementary {spec : Option AlwaysWriteSpec} :
    Elementary place (alwaysWrite spec place).result := by
  cases spec with
  | none => exact .ok
  | some spec =>
    simp only [alwaysWrite, Logged.result_bind, Logged.result_liftM, Logged.result_pure]
    refine .bind (.inside bits_elementary) fun s _ => ?_
    exact .bind (.inside writtenValue_elementary) fun v _ => .ok

theorem table_outcome {f : String → α → Build β} {t : Named α} {E : Fault → Prop}
    (h : ∀ e ∈ t.entries, Outcome (fun _ => True) E (f e.1 e.2).result) :
    Outcome (fun _ => True) E (table f t).result := by
  simp only [table, Logged.result_bind, Logged.result_mapM, Logged.result_pure]
  refine Outcome.bind (Outcome.mapM (R := fun _ _ => True) fun e he => ?_) fun es _ _ => trivial
  exact (h e he).bind fun b _ _ => trivial

theorem field_elementary {shared : Named Enumeration} {inherited : List Access}
    {spec : FieldSpec} : Elementary place (field shared inherited place name spec).result := by
  simp only [field, Logged.result_bind, Logged.result_liftM, Logged.result_pure]
  refine .bind (.inside checkName_elementary) fun _ _ => ?_
  refine .bind (.inside access_elementary) fun own _ => ?_
  refine .bind (.inside docs_elementary) fun d _ => ?_
  refine .bind (.inside fieldEnum_elementary) fun e _ => ?_
  exact .bind (.inside bits_elementary) fun s _ => .ok

theorem fields_elementary {shared : Named Enumeration} {inherited : List Access}
    {specs : Named FieldSpec} : Elementary place (fields shared inherited specs place).result :=
  table_outcome fun _ _ => Elementary.inside field_elementary

theorem template_elementary {spec : TemplateSpec} :
    Elementary place (template context place name spec).result := by
  simp only [template, Logged.result_bind, Logged.result_liftM, Logged.result_pure]
  refine .bind access_elementary fun access _ => ?_
  refine .bind width_elementary fun width _ => ?_
  refine .bind fields_elementary fun fs _ => ?_
  refine .bind alwaysWrite_elementary fun aw _ => ?_
  exact .bind docs_elementary fun d _ => .ok

theorem register_elementary {spec : RegisterSpec} :
    Elementary place (register context place name spec).result := by
  simp only [register, Logged.result_bind, Logged.result_liftM, Logged.result_pure]
  refine .bind access_elementary fun access _ => ?_
  refine .bind width_elementary fun width _ => ?_
  refine .bind fields_elementary fun fs _ => ?_
  refine .bind alwaysWrite_elementary fun aw _ => ?_
  exact .bind docs_elementary fun d _ => .ok

theorem instanceName_elementary {id : String} {replace : Option String} :
    Elementary place (instanceName name id replace place) := by
  unfold instanceName
  split
  · exact .ok
  · split
    · exact .ok
    · exact .refuse_inside rfl

theorem instances_elementary {use : BlockUse} : Elementary place (instances name use place) := by
  unfold instances
  split
  · split
    · exact .refuse_inside rfl
    · exact .ok
  · exact .mapM fun e _ => .bind instanceName_elementary fun i _ => .ok

/-- What keeps a block template from being resolved: a flaw of one of its parts, or two of its
registers with one offset. -/
def BlockFlaw (cause : Cause) : Prop :=
  cause.ofElement = true ∨ ∃ offset name existing, cause = .duplicateAddress offset name existing

theorem Elementary.blockFlaw {x : Except Fault α} (h : Elementary place x) :
    Outcome (fun _ => True) (Fault.Within place BlockFlaw) x :=
  h.mono_error fun _ h => h.mono fun _ => .inl

theorem templateList_flaws {specs : List (String × TemplateSpec)} {seen : List (Word × String)} :
    Outcome (fun _ => True) (Fault.Within place BlockFlaw)
      (templateList context place specs seen).result := by
  induction specs generalizing seen with
  | nil => trivial
  | cons e specs ih =>
    simp only [templateList, Logged.result_bind, Logged.result_liftM]
    refine .bind (Elementary.inside checkName_elementary).blockFlaw fun _ _ _ => ?_
    split
    next offset existing _ =>
      exact ⟨[e.1] ++ ["offset"], _, by rw [List.append_assoc], .inr ⟨_, _, _, rfl⟩⟩
    next =>
      simp only [Logged.result_bind, Logged.result_pure]
      refine .bind (Elementary.inside template_elementary).blockFlaw fun t _ _ => ?_
      exact ih.bind fun ts _ _ => trivial

theorem block_flaws {spec : BlockSpec} :
    Outcome (fun _ => True) (Fault.Within (place ++ [name]) BlockFlaw)
      (block context place name spec).result := by
  simp only [block, Logged.result_bind, Logged.result_liftM, Logged.result_report,
    Logged.result_pure]
  refine .bind checkName_elementary.blockFlaw fun _ _ _ => ?_
  refine .bind docs_elementary.blockFlaw fun d _ _ => ?_
  exact .bind (templateList_flaws.mono_error fun _ h => h.inside) fun ts _ _ => trivial

end Resolve

end RegAtlas
