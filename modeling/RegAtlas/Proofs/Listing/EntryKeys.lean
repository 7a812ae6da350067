import RegAtlas.Listing.Entry
import RegAtlas.Proofs.Success
import Mathlib.Data.List.Basic

namespace RegAtlas.Listing

inductive Given where
  | block (name : String)
  | start (spec : StartSpec)
  | replace (text : String)
  | fields (specs : Named FieldSpec)
  | address (a : Word)
  | width (w : Nat)
  | access (spec : AccessSpec)
  | resetValue (v : Word)
  | alwaysWrite (spec : AlwaysWriteSpec)
  | brief (text : String)
  | doc (text : String)

def Given.key : Given → String
  | block _ => "register_block_template"
  | start _ => "start_adr"
  | replace _ => "replace_str_with_instance_id"
  | fields _ => "fields"
  | address _ => "adr"
  | width _ => "bitwidth"
  | access _ => "access"
  | resetValue _ => "reset_val"
  | alwaysWrite _ => "always_write"
  | brief _ => "brief"
  | doc _ => "doc"

def RegisterSpec.given (r : RegisterSpec) : List Given :=
  [.fields r.fields] ++ (r.address.map .address).toList ++ (r.width.map .width).toList ++
    (r.access.map .access).toList ++ (r.resetValue.map .resetValue).toList ++
    (r.alwaysWrite.map .alwaysWrite).toList ++ (r.brief.map .brief).toList ++
    (r.doc.map .doc).toList

def BlockUse.given (use : BlockUse) : List Given :=
  [.block use.block, .start use.start] ++ (use.replace.map .replace).toList

def Entry.given : Entry → List Given
  | register spec => spec.given
  | block use => use.given

def blockOnly : List String := ["start_adr", "replace_str_with_instance_id"]

def registerOnly : List String :=
  ["fields", "adr", "bitwidth", "access", "reset_val", "always_write", "brief", "doc"]

def EntryError.key : EntryError → String
  | onlyInBlock key => key
  | notInBlock key _ => key
  | startMissing _ => "start_adr"

theorem EntryError.message_names (err : EntryError) :
    ∃ before after, err.message = before ++ "`" ++ err.key ++ "`" ++ after := by
  cases err with
  | onlyInBlock key =>
    have hafter : "` is only valid together with `register_block_template`" =
        "`" ++ " is only valid together with `register_block_template`" := by decide +kernel
    refine ⟨"", " is only valid together with `register_block_template`", ?_⟩
    change "`" ++ key ++ _ = "" ++ "`" ++ key ++ "`" ++ _
    rw [hafter, String.empty_append, ← String.append_assoc]
  | notInBlock key block =>
    have hafter : "` is not allowed in instantiation of block `" =
        "`" ++ " is not allowed in instantiation of block `" := by decide +kernel
    refine ⟨"", " is not allowed in instantiation of block `" ++ block ++ "`", ?_⟩
    change "`" ++ key ++ _ ++ block ++ "`" = "" ++ "`" ++ key ++ "`" ++ _
    rw [hafter, String.empty_append, ← String.append_assoc, ← String.append_assoc,
      ← String.append_assoc]
  | startMissing block =>
    have hafter : "` is missing `start_adr`" = "` is missing " ++ "`" ++ "start_adr" ++ "`" := by
      decide +kernel
    refine ⟨"instantiation of block `" ++ block ++ "` is missing ", "", ?_⟩
    change "instantiation of block `" ++ block ++ _ = _ ++ "`" ++ "start_adr" ++ "`" ++ ""
    rw [hafter, String.append_empty, ← String.append_assoc, ← String.append_assoc,
      ← String.append_assoc]

namespace RawEntry

def given (e : RawEntry) : List Given :=
  (e.block.map .block).toList ++ (e.start.map .start).toList ++ (e.replace.map .replace).toList ++
    (e.fields.map .fields).toList ++ (e.address.map .address).toList ++
    (e.width.map .width).toList ++ (e.access.map .access).toList ++
    (e.resetValue.map .resetValue).toList ++ (e.alwaysWrite.map .alwaysWrite).toList ++
    (e.brief.map .brief).toList ++ (e.doc.map .doc).toList

def keys (e : RawEntry) : List String := e.given.map Given.key

/-- Why an entry is neither a register nor an instantiation. Of several keys that do not belong
there the first one of its kind is named. -/
inductive Refused (e : RawEntry) : EntryError → Prop
  | onlyInBlock {key : String} (hblock : "register_block_template" ∉ e.keys)
      (hkey : blockOnly.find? (· ∈ e.keys) = some key) : Refused e (.onlyInBlock key)
  | notInBlock {key block : String} (hblock : .block block ∈ e.given)
      (hkey : registerOnly.find? (· ∈ e.keys) = some key) : Refused e (.notInBlock key block)
  | startMissing {block : String} (hblock : .block block ∈ e.given) (hstart : "start_adr" ∉ e.keys)
      (hkeys : ∀ key ∈ registerOnly, key ∉ e.keys) : Refused e (.startMissing block)

/-- The keys alone decide what an entry is, and no value is lost. -/
structure ClassifiedByKeys (e : RawEntry) : Prop where
  block_iff : (∃ use, e.classify = .ok (.block use)) ↔ "register_block_template" ∈ e.keys ∧
    "start_adr" ∈ e.keys ∧ ∀ key ∈ registerOnly, key ∉ e.keys
  register_iff : (∃ spec, e.classify = .ok (.register spec)) ↔
    ∀ key ∈ "register_block_template" :: blockOnly, key ∉ e.keys
  kept : ∀ r, e.classify = .ok r → (∀ g ∈ e.given, g ∈ r.given) ∧
    ∀ g ∈ r.given, g ∈ e.given ∨ g = .fields .empty
  refused_iff : ∀ err, e.classify = .error err ↔ e.Refused err
  named : ∀ err, e.classify = .error err →
    (err.key ∈ e.keys ∨ err.key = "start_adr" ∧ "start_adr" ∉ e.keys) ∧
      ∃ before after, err.message = before ++ "`" ++ err.key ++ "`" ++ after

variable {e : RawEntry}

theorem firstGiven?_eq_find? {given : List String} (keys : List (String × Bool))
    (h : ∀ k ∈ keys, k.2 = true ↔ k.1 ∈ given) :
    firstGiven? keys = (keys.map Prod.fst).find? (· ∈ given) := by
  induction keys with
  | nil => rfl
  | cons k keys ih =>
    obtain ⟨hk, hkeys⟩ := List.forall_mem_cons.1 h
    have ih := ih hkeys
    rw [firstGiven?] at ih ⊢
    by_cases hgiven : k.2 = true
    · rw [List.find?_cons_of_pos hgiven, List.map_cons, List.find?_cons_of_pos, Option.map_some]
      rwa [decide_eq_true_iff, ← hk]
    · rw [List.find?_cons_of_neg hgiven, List.map_cons, List.find?_cons_of_neg, ih]
      rwa [decide_eq_true_iff, ← hk]

theorem firstGiven?_blockKeys : firstGiven? e.blockKeys = blockOnly.find? (· ∈ e.keys) := by
  refine firstGiven?_eq_find? e.blockKeys ?_
  simp [blockKeys, RawEntry.keys, RawEntry.given, Given.key, Option.isSome_iff_exists]

theorem firstGiven?_registerKeys :
    firstGiven? e.registerKeys = registerOnly.find? (· ∈ e.keys) := by
  refine firstGiven?_eq_find? e.registerKeys ?_
  simp [registerKeys, RawEntry.keys, RawEntry.given, Given.key, Option.isSome_iff_exists]

theorem find?_keys_eq_none_iff {names : List String} :
    names.find? (· ∈ e.keys) = none ↔ ∀ key ∈ names, key ∉ e.keys := by
  simp only [List.find?_eq_none, decide_eq_true_eq]

theorem block_mem_given_iff {block : String} : .block block ∈ e.given ↔ e.block = some block := by
  simp [RawEntry.given]

theorem marked_iff : "register_block_template" ∈ e.keys ↔ e.block.isSome = true := by
  simp [RawEntry.keys, RawEntry.given, Given.key, Option.isSome_iff_exists]

theorem started_iff : "start_adr" ∈ e.keys ↔ e.start.isSome = true := by
  simp [RawEntry.keys, RawEntry.given, Given.key, Option.isSome_iff_exists]

theorem toBlockUse_ok_iff {block : String} {use : BlockUse} : e.toBlockUse block = .ok use ↔
    block = use.block ∧ e.start = some use.start ∧
      (∀ key ∈ registerOnly, key ∉ e.keys) ∧ e.replace = use.replace := by
  rw [← find?_keys_eq_none_iff, ← firstGiven?_registerKeys]
  obtain ⟨name, start, replace⟩ := use
  unfold toBlockUse
  cases firstGiven? e.registerKeys <;> cases e.start <;> simp

theorem toBlockUse_error_iff {block : String} {err : EntryError} :
    e.toBlockUse block = .error err ↔
      (∃ key, registerOnly.find? (· ∈ e.keys) = some key ∧ .notInBlock key block = err) ∨
      e.start = none ∧ (∀ key ∈ registerOnly, key ∉ e.keys) ∧ .startMissing block = err := by
  rw [← find?_keys_eq_none_iff, ← firstGiven?_registerKeys]
  unfold toBlockUse
  cases firstGiven? e.registerKeys <;> cases e.start <;> simp

theorem toRegister_ok_iff {spec : RegisterSpec} : e.toRegister = .ok spec ↔
    (∀ key ∈ blockOnly, key ∉ e.keys) ∧
      ⟨e.fields.getD .empty, e.address, e.width, e.access, e.resetValue, e.alwaysWrite, e.brief,
        e.doc⟩ = spec := by
  rw [← find?_keys_eq_none_iff, ← firstGiven?_blockKeys, toRegister]
  cases firstGiven? e.blockKeys <;> simp

theorem toRegister_error_iff {err : EntryError} : e.toRegister = .error err ↔
    ∃ key, blockOnly.find? (· ∈ e.keys) = some key ∧ .onlyInBlock key = err := by
  rw [← firstGiven?_blockKeys, toRegister]
  cases firstGiven? e.blockKeys <;> simp

theorem classify_block_iff {use : BlockUse} : e.classify = .ok (.block use) ↔
    e.block = some use.block ∧ e.start = some use.start ∧
      (∀ key ∈ registerOnly, key ∉ e.keys) ∧ e.replace = use.replace := by
  unfold classify
  cases e.block with
  | none => simp [Success.map_eq_ok]
  | some block =>
    simp only [Success.map_eq_ok, toBlockUse_ok_iff, Entry.block.injEq, exists_eq_right,
      Option.some.injEq]

theorem classify_register_iff {spec : RegisterSpec} : e.classify = .ok (.register spec) ↔
    e.block = none ∧ (∀ key ∈ blockOnly, key ∉ e.keys) ∧
      ⟨e.fields.getD .empty, e.address, e.width, e.access, e.resetValue, e.alwaysWrite, e.brief,
        e.doc⟩ = spec := by
  unfold classify
  cases e.block with
  | none => simp [Success.map_eq_ok, toRegister_ok_iff]
  | some block => simp [Success.map_eq_ok]

theorem classify_error_iff {err : EntryError} : e.classify = .error err ↔ e.Refused err := by
  unfold classify
  cases hblock : e.block with
  | none =>
    rw [Success.map_eq_error, toRegister_error_iff]
    constructor
    · rintro ⟨key, hkey, rfl⟩
      exact .onlyInBlock (by simp [marked_iff, hblock]) hkey
    · intro h
      cases h with
      | onlyInBlock _ hkey => exact ⟨_, hkey, rfl⟩
      | notInBlock hgiven | startMissing hgiven =>
        rw [block_mem_given_iff, hblock] at hgiven
        cases hgiven
  | some block =>
    rw [Success.map_eq_error, toBlockUse_error_iff]
    constructor
    · rintro (⟨key, hkey, rfl⟩ | ⟨hstart, hkeys, rfl⟩)
      · exact .notInBlock (block_mem_given_iff.2 hblock) hkey
      · exact .startMissing (block_mem_given_iff.2 hblock) (by simp [started_iff, hstart]) hkeys
    · intro h
      cases h with
      | onlyInBlock hmarked => exact absurd (marked_iff.2 (by simp [hblock])) hmarked
      | notInBlock hgiven hkey =>
        cases hblock.symm.trans (block_mem_given_iff.1 hgiven)
        exact .inl ⟨_, hkey, rfl⟩
      | startMissing hgiven hstart hkeys =>
        cases hblock.symm.trans (block_mem_given_iff.1 hgiven)
        rw [started_iff, Option.not_isSome_iff_eq_none] at hstart
        exact .inr ⟨hstart, hkeys, rfl⟩

theorem not_registerOnly (h : ∀ key ∈ registerOnly, key ∉ e.keys) :
    e.fields = none ∧ e.address = none ∧ e.width = none ∧ e.access = none ∧
      e.resetValue = none ∧ e.alwaysWrite = none ∧ e.brief = none ∧ e.doc = none := by
  rw [← find?_keys_eq_none_iff, ← firstGiven?_registerKeys] at h
  simpa [firstGiven?, registerKeys] using h

theorem not_blockOnly (h : ∀ key ∈ blockOnly, key ∉ e.keys) :
    e.start = none ∧ e.replace = none := by
  rw [← find?_keys_eq_none_iff, ← firstGiven?_blockKeys] at h
  simpa [firstGiven?, blockKeys] using h

theorem given_of_classify_block {use : BlockUse} (h : e.classify = .ok (.block use)) :
    e.given = use.given := by
  obtain ⟨hblock, hstart, hkeys, hreplace⟩ := classify_block_iff.1 h
  obtain ⟨hfields, haddress, hwidth, haccess, hreset, halways, hbrief, hdoc⟩ :=
    not_registerOnly hkeys
  simp [RawEntry.given, BlockUse.given, *]

theorem given_of_classify_register {spec : RegisterSpec} (h : e.classify = .ok (.register spec)) :
    e.given = spec.given ∨ .fields .empty :: e.given = spec.given := by
  obtain ⟨hblock, hkeys, rfl⟩ := classify_register_iff.1 h
  obtain ⟨hstart, hreplace⟩ := not_blockOnly hkeys
  cases hfields : e.fields with
  | none =>
    right
    simp [RawEntry.given, RegisterSpec.given, *]
  | some fields =>
    left
    simp [RawEntry.given, RegisterSpec.given, *]

theorem classifiedByKeys (e : RawEntry) : e.ClassifiedByKeys where
  block_iff := by
    simp only [classify_block_iff, marked_iff, started_iff, Option.isSome_iff_exists]
    constructor
    · rintro ⟨use, hblock, hstart, hkeys, -⟩
      exact ⟨⟨_, hblock⟩, ⟨_, hstart⟩, hkeys⟩
    · rintro ⟨⟨block, hblock⟩, ⟨start, hstart⟩, hkeys⟩
      exact ⟨⟨block, start, e.replace⟩, hblock, hstart, hkeys, rfl⟩
  register_iff := by
    simp only [classify_register_iff, exists_and_left, exists_eq', and_true,
      List.forall_mem_cons, marked_iff, Option.not_isSome_iff_eq_none]
  kept r h := by
    cases r with
    | block use =>
      rw [given_of_classify_block h]
      exact ⟨fun g hg => hg, fun g hg => .inl hg⟩
    | register spec =>
      change (∀ g ∈ e.given, g ∈ spec.given) ∧ ∀ g ∈ spec.given, _
      rcases given_of_classify_register h with h | h
      · rw [h]
        exact ⟨fun g hg => hg, fun g hg => .inl hg⟩
      · rw [← h]
        exact ⟨fun g hg => List.mem_cons_of_mem _ hg, fun g hg => (List.mem_cons.1 hg).symm⟩
  refused_iff _ := classify_error_iff
  named err h := by
    refine ⟨?_, EntryError.message_names err⟩
    have hgiven {names : List String} {key : String}
        (hkey : names.find? (· ∈ e.keys) = some key) : key ∈ e.keys :=
      of_decide_eq_true (List.find?_some (p := (· ∈ e.keys)) hkey)
    cases classify_error_iff.1 h with
    | onlyInBlock _ hkey | notInBlock _ hkey => exact .inl (hgiven hkey)
    | startMissing _ hstart => exact .inr ⟨rfl, hstart⟩

end RawEntry

end RegAtlas.Listing
