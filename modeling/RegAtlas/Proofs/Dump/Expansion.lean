import RegAtlas.Proofs.Dump.Insert
import RegAtlas.Proofs.Numeral

namespace RegAtlas

theorem Word.ofNat?_eq_some_iff {n : Nat} {w : Word} : Word.ofNat? n = some w ↔ w.toNat = n :=
  ⟨Word.toNat_of_ofNat?, fun h => h ▸ Word.ofNat?_toNat w⟩

theorem Word.ofNat?_eq_none_iff {n : Nat} : Word.ofNat? n = none ↔ 2 ^ 64 ≤ n := by
  rw [Word.ofNat?, ite_eq_right_iff]
  simp [wordSize]

namespace DumpError

theorem append_ne_append {p q s t : String} (i : Nat) (hp : i < p.toList.length)
    (hq : i < q.toList.length) (hne : p.toList[i] ≠ q.toList[i]) : p ++ s ≠ q ++ t := by
  intro h
  have h := congrArg (fun u => u.toList[i]?) h
  simp only [String.toList_append, List.getElem?_append_left hp, List.getElem?_append_left hq,
    List.getElem?_eq_getElem hp, List.getElem?_eq_getElem hq] at h
  exact hne (Option.some.inj h)

theorem eq_repeated_of_messages {e : DumpError} {a : Word}
    (h : e.messages = (repeated a).messages) : e = .repeated a := by
  cases e with
  | badAddress text => exact absurd (congrArg List.length h) (by simp [messages])
  | badValue b text => exact absurd (congrArg List.length h) (by simp [messages])
  | unreadable =>
    have hmessage : unreadable.messages = ["Schema error at register dump: " ++ ""] := by
      decide +kernel
    rw [hmessage] at h
    exact absurd (List.cons.inj h).1
      (append_ne_append 14 (by decide) (by decide) (by decide))
  | overflow start =>
    exact absurd (List.cons.inj h).1
      (append_ne_append 14 (by decide) (by decide) (by decide))
  | repeated b =>
    have h := congrArg String.toList (List.cons.inj h).1
    rw [String.toList_append, String.toList_append, List.append_cancel_left_eq] at h
    rw [Numeral.hex_injective (String.toList_injective h)]

end DumpError

namespace Dump

structure Element where
  key : Written
  index : Nat
  value : Written

def Element.LiesAt (x : Element) (a : Nat) : Prop :=
  ∃ start, x.key.read = .ok start ∧ start.toNat + x.index = a

/-- The element puts this value at this address. -/
structure Element.Denotes (x : Element) (c : Word × Word) : Prop where
  address : x.LiesAt c.1.toNat
  value : x.value.read = .ok c.2

def elementsFrom (key : Written) (i : Nat) (vs : List Written) : List Element :=
  (vs.zipIdx i).map fun v => ⟨key, v.2, v.1⟩

def elements (es : List (Written × Recorded)) : List Element :=
  es.flatMap fun e => elementsFrom e.1 0 e.2.values

variable {d d' : Dump} {a v start : Word} {i : Nat} {key : Written} {text : String}
  {cells : List (Word × Word)} {es : List (Written × Recorded)} {vs : List Written}
  {x y : Element} {xs ys : List Element} {e : DumpError}

theorem Element.LiesAt.unique {m n : Nat} (h : x.LiesAt m) (h' : x.LiesAt n) : m = n := by
  obtain ⟨start, hstart, rfl⟩ := h
  obtain ⟨start', hstart', rfl⟩ := h'
  rw [Except.ok.inj (hstart.symm.trans hstart')]

theorem elementsFrom_cons (w : Written) :
    elementsFrom key i (w :: vs) = ⟨key, i, w⟩ :: elementsFrom key (i + 1) vs := rfl

theorem key_of_mem_elementsFrom (h : x ∈ elementsFrom key i vs) : x.key = key := by
  obtain ⟨p, -, rfl⟩ := List.mem_map.1 h
  rfl

theorem le_index_of_mem_elementsFrom (h : x ∈ elementsFrom key i vs) : i ≤ x.index := by
  obtain ⟨p, hp, rfl⟩ := List.mem_map.1 h
  exact (List.mem_zipIdx hp).1

theorem key_of_mem_elements (h : x ∈ elements es) : x.key ∈ es.map Prod.fst := by
  obtain ⟨p, hp, hx⟩ := List.mem_flatMap.1 h
  rw [key_of_mem_elementsFrom hx]
  exact List.mem_map_of_mem hp

theorem length_elements :
    (elements es).length = (es.map fun p => p.2.values.length).sum := by
  simp only [elements, elementsFrom, List.length_flatMap, List.length_map, List.length_zipIdx]

theorem denotes_of_valueCells? (hkey : key.read = .ok start)
    (h : valueCells? start i vs = some cells) :
    List.Forall₂ Element.Denotes (elementsFrom key i vs) cells := by
  induction vs generalizing i cells with
  | nil =>
    cases h
    exact .nil
  | cons w vs ih =>
    simp only [valueCells?, Option.bind_eq_bind, Option.bind_eq_some_iff, Option.pure_def,
      Option.some.injEq] at h
    obtain ⟨a, ha, v, hv, rest, hrest, rfl⟩ := h
    have haddress : start.toNat + i = a.toNat := (Word.ofNat?_eq_some_iff.1 ha).symm
    exact .cons ⟨⟨start, hkey, haddress⟩, number?_eq_some_iff.1 hv⟩ (ih hrest)

theorem denotes_of_cells? (h : cells? es = some cells) :
    (∀ p ∈ es, ∃ start, p.1.read = .ok start) ∧
      List.Forall₂ Element.Denotes (elements es) cells := by
  induction es generalizing cells with
  | nil =>
    cases h
    exact ⟨nofun, .nil⟩
  | cons p es ih =>
    obtain ⟨start, here, rest, hstart, hhere, hrest, rfl⟩ := cells?_cons_eq_some_iff.1 h
    obtain ⟨hkeys, helements⟩ := ih hrest
    have hstart := number?_eq_some_iff.1 hstart
    exact ⟨List.forall_mem_cons.2 ⟨⟨start, hstart⟩, hkeys⟩,
      List.rel_append (denotes_of_valueCells? hstart hhere) helements⟩

theorem mem_cells_iff (h : List.Forall₂ Element.Denotes xs cells) :
    (a, v) ∈ cells ↔ ∃ x ∈ xs, x.Denotes (a, v) := by
  constructor
  · exact Table.exists_of_forall₂_right h
  · rintro ⟨x, hx, hxc⟩
    obtain ⟨⟨b, w⟩, hc, hxc'⟩ := Table.exists_of_forall₂_left h hx
    cases BitVec.eq_of_toNat_eq (hxc.address.unique hxc'.address)
    cases hxc.value.symm.trans hxc'.value
    exact hc

theorem eq_of_liesAt {m : Nat} (h : List.Forall₂ Element.Denotes xs cells)
    (hnodup : (cells.map Prod.fst).Nodup) (hx : x ∈ xs) (hy : y ∈ xs) (hxm : x.LiesAt m)
    (hym : y.LiesAt m) : x = y := by
  have taken {z : Element} {c : Word × Word} {zs : List Element} {cs : List (Word × Word)}
      (hrest : List.Forall₂ Element.Denotes zs cs) (hz : z ∈ zs) (hzm : z.LiesAt m)
      (hc : c.1.toNat = m) : c.1 ∈ cs.map Prod.fst := by
    obtain ⟨c', hc', hz'⟩ := Table.exists_of_forall₂_left hrest hz
    have : c.1 = c'.1 := BitVec.eq_of_toNat_eq (hc.trans (hzm.unique hz'.address))
    exact this ▸ List.mem_map_of_mem hc'
  induction h with
  | nil => cases hx
  | @cons z c zs cs hzc hrest ih =>
    obtain ⟨hc, hnodup⟩ := List.nodup_cons.1 hnodup
    rcases List.mem_cons.1 hx with rfl | hx'
    · rcases List.mem_cons.1 hy with rfl | hy'
      · rfl
      · exact absurd (taken hrest hy' hym (hzc.address.unique hxm)) hc
    · rcases List.mem_cons.1 hy with rfl | hy'
      · exact absurd (taken hrest hx' hxm (hzc.address.unique hym)) hc
      · exact ih hnodup hx' hy'

theorem elementsFrom_nodup : (elementsFrom key i vs).Nodup := by
  induction vs generalizing i with
  | nil => exact .nil
  | cons w vs ih =>
    rw [elementsFrom_cons, List.nodup_cons]
    exact ⟨fun h => absurd (le_index_of_mem_elementsFrom h) (Nat.not_succ_le_self i), ih⟩

theorem elements_nodup (h : (es.map Prod.fst).Nodup) : (elements es).Nodup := by
  induction es with
  | nil => exact .nil
  | cons p es ih =>
    obtain ⟨hp, hes⟩ := List.nodup_cons.1 h
    rw [elements, List.flatMap_cons, List.nodup_append]
    refine ⟨elementsFrom_nodup, ih hes, ?_⟩
    rintro x hx y hy rfl
    exact hp (key_of_mem_elementsFrom hx ▸ key_of_mem_elements hy)

/-- What there is among the elements, or in the dump that they are put into, when they are refused
for this reason. -/
inductive Blocked (d : Dump) (xs : List Element) : DumpError → Prop
  | badValue {x : Element} {a : Word} {text : String} (hx : x ∈ xs) (hxa : x.LiesAt a.toNat)
      (hvalue : x.value.read = .error text) : Blocked d xs (.badValue a text)
  | overflow {x : Element} {start : Word} (hx : x ∈ xs) (hkey : x.key.read = .ok start)
      (hover : 2 ^ 64 ≤ start.toNat + x.index) : Blocked d xs (.overflow start)
  | taken {x : Element} {a : Word} (hx : x ∈ xs) (hxa : x.LiesAt a.toNat)
      (ha : d.contains a = true) : Blocked d xs (.repeated a)
  | repeated {x y : Element} {a : Word} (hx : x ∈ xs) (hy : y ∈ xs) (hne : x ≠ y)
      (hxa : x.LiesAt a.toNat) (hya : y.LiesAt a.toNat) : Blocked d xs (.repeated a)

namespace Blocked

theorem mono (h : Blocked d xs e) (hsub : xs ⊆ ys) : Blocked d ys e := by
  cases h with
  | badValue hx hxa hvalue => exact .badValue (hsub hx) hxa hvalue
  | overflow hx hkey hover => exact .overflow (hsub hx) hkey hover
  | taken hx hxa ha => exact .taken (hsub hx) hxa ha
  | repeated hx hy hne hxa hya => exact .repeated (hsub hx) (hsub hy) hne hxa hya

theorem of_insert (hx : x ∉ xs) (hxa : x.LiesAt a.toNat) (h : Blocked (d.insert a v) xs e) :
    Blocked d (x :: xs) e := by
  cases h with
  | badValue hy hya hvalue => exact .badValue (List.mem_cons_of_mem x hy) hya hvalue
  | overflow hy hkey hover => exact .overflow (List.mem_cons_of_mem x hy) hkey hover
  | repeated hy hz hne hya hza =>
    exact .repeated (List.mem_cons_of_mem x hy) (List.mem_cons_of_mem x hz) hne hya hza
  | @taken y b hy hyb hb =>
    by_cases hba : b = a
    · subst hba
      have hne : x ≠ y := fun he => hx (he ▸ hy)
      exact .repeated List.mem_cons_self (List.mem_cons_of_mem x hy) hne hxa hyb
    · rw [Table.contains, Table.get?_insert, if_neg hba] at hb
      exact .taken (List.mem_cons_of_mem x hy) hyb hb

theorem of_adds (hadds : Adds d cells d') (hcells : List.Forall₂ Element.Denotes ys cells)
    (hnodup : (ys ++ xs).Nodup) (h : Blocked d' xs e) : Blocked d (ys ++ xs) e := by
  induction hadds generalizing ys with
  | nil =>
    cases hcells
    exact h
  | cons _ _ ih =>
    obtain ⟨y, ys, hy, hys, rfl⟩ := List.forall₂_cons_right_iff.1 hcells
    obtain ⟨hnot, hnodup⟩ := List.nodup_cons.1 hnodup
    exact of_insert hnot hy.address (ih hys hnodup h)

end Blocked

theorem insertValues_blocked (hkey : key.read = .ok start)
    (h : insertValues start i vs d = .error e) : Blocked d (elementsFrom key i vs) e := by
  induction vs generalizing i d with
  | nil => cases h
  | cons w vs ih =>
    rw [elementsFrom_cons]
    rw [insertValues] at h
    cases ha : Word.ofNat? (start.toNat + i) with
    | none =>
      rw [ha] at h
      cases h
      exact .overflow List.mem_cons_self hkey (Word.ofNat?_eq_none_iff.1 ha)
    | some a =>
      have hat : Element.LiesAt ⟨key, i, w⟩ a.toNat :=
        ⟨start, hkey, (Word.ofNat?_eq_some_iff.1 ha).symm⟩
      rw [ha] at h
      cases hw : w.read with
      | error text =>
        rw [hw] at h
        cases h
        exact .badValue List.mem_cons_self hat hw
      | ok v =>
        cases hd : d.contains a with
        | true =>
          simp only [hw, hd] at h
          cases h
          exact .taken List.mem_cons_self hat hd
        | false =>
          simp only [hw, hd] at h
          refine .of_insert ?_ hat (ih h)
          exact fun hmem => absurd (le_index_of_mem_elementsFrom hmem) (Nat.not_succ_le_self i)

theorem insertEntries_blocked (hkeys : (es.map Prod.fst).Nodup)
    (h : insertEntries es d = .error e) :
    (∃ p ∈ es, ∃ text, p.1.read = .error text ∧ e = .badAddress text) ∨
      Blocked d (elements es) e := by
  induction es generalizing d with
  | nil => cases h
  | cons p es ih =>
    have hnodup : (elementsFrom p.1 0 p.2.values ++ elements es).Nodup := elements_nodup hkeys
    rw [insertEntries] at h
    rcases Success.bind_eq_error.1 h with hkey | ⟨start, hstart, h⟩
    · obtain ⟨text, htext, rfl⟩ := Success.mapError_eq_error.1 hkey
      exact .inl ⟨p, List.mem_cons_self, text, htext, rfl⟩
    · have hstart := Success.mapError_eq_ok.1 hstart
      rcases Success.bind_eq_error.1 h with h | ⟨t, ht, h⟩
      · exact .inr ((insertValues_blocked hstart h).mono (List.subset_append_left _ _))
      · obtain ⟨cells, hcells, hadds⟩ := insertValues_ok_iff.1 ht
        rcases ih (List.nodup_cons.1 hkeys).2 h with ⟨q, hq, text, htext, rfl⟩ | h
        · exact .inl ⟨q, List.mem_cons_of_mem _ hq, text, htext, rfl⟩
        · exact .inr (.of_adds hadds (denotes_of_valueCells? hstart hcells) hnodup h)

namespace Listing

variable {l : Listing}

def elements (l : Listing) : List Element := Dump.elements l.entries

/-- All keys and values are numbers, and the values lie at different addresses inside the address
space. -/
structure Expandable (l : Listing) : Prop where
  keys : ∀ p ∈ l.entries, ∃ start, p.1.read = .ok start
  values : ∀ x ∈ l.elements, ∃ v, x.value.read = .ok v
  inside : ∀ x ∈ l.elements, ∀ a, x.LiesAt a → a < 2 ^ 64
  apart : ∀ x ∈ l.elements, ∀ y ∈ l.elements, ∀ a, x.LiesAt a → y.LiesAt a → x = y

/-- The dump is the values of the listing at their addresses, and nothing else. -/
structure ExpandsTo (l : Listing) (d : Dump) : Prop where
  get?_iff : ∀ a v, d.get? a = some v ↔ ∃ x ∈ l.elements, x.LiesAt a.toNat ∧ x.value.read = .ok v
  addresses_ascending : d.keys.Pairwise (· < ·)
  mem_addresses_iff : ∀ a, a ∈ d.keys ↔ ∃ x ∈ l.elements, x.LiesAt a.toNat
  size_eq : d.size = (l.values.map fun r => r.values.length).sum

structure ExpandsExactly (l : Listing) : Prop where
  ok_iff : (∃ d, ofListing l = .ok d) ↔ l.Expandable
  expands : ∀ d, ofListing l = .ok d → l.ExpandsTo d
  repeated : ∀ e a, ofListing l = .error e → e.messages = (DumpError.repeated a).messages →
    ∃ x ∈ l.elements, ∃ y ∈ l.elements, x ≠ y ∧ x.LiesAt a.toNat ∧ y.LiesAt a.toNat

theorem Expandable.of_records (h : Records l.entries d) : l.Expandable := by
  obtain ⟨cells, hcells, hnodup, -⟩ := h
  obtain ⟨hkeys, hdenotes⟩ := denotes_of_cells? hcells
  refine ⟨hkeys, fun x hx => ?_, fun x hx a hxa => ?_, fun x hx y hy a hxa hya => ?_⟩
  · obtain ⟨c, -, hc⟩ := Table.exists_of_forall₂_left hdenotes hx
    exact ⟨c.2, hc.value⟩
  · obtain ⟨c, -, hc⟩ := Table.exists_of_forall₂_left hdenotes hx
    rw [hxa.unique hc.address]
    exact c.1.isLt
  · exact eq_of_liesAt hdenotes hnodup hx hy hxa hya

theorem Expandable.not_blocked (h : l.Expandable) : ¬Blocked .empty l.elements e := by
  intro hblocked
  cases hblocked with
  | badValue hx hxa hvalue =>
    obtain ⟨v, hv⟩ := h.values _ hx
    rw [hvalue] at hv
    cases hv
  | overflow hx hkey hover => exact absurd (h.inside _ hx _ ⟨_, hkey, rfl⟩) (not_lt.2 hover)
  | taken hx hxa ha => cases ha
  | repeated hx hy hne hxa hya => exact hne (h.apart _ hx _ hy _ hxa hya)

theorem exists_ofListing_ok (h : l.Expandable) : ∃ d, ofListing l = .ok d := by
  cases hl : ofListing l with
  | ok d => exact ⟨d, rfl⟩
  | error e =>
    rcases insertEntries_blocked Table.keys_nodup hl with ⟨p, hp, text, htext, -⟩ | hblocked
    · obtain ⟨start, hstart⟩ := h.keys p hp
      rw [htext] at hstart
      cases hstart
    · exact absurd hblocked h.not_blocked

theorem ExpandsTo.of_records (h : Records l.entries d) : l.ExpandsTo d := by
  obtain ⟨cells, hcells, hnodup, hget⟩ := h
  obtain ⟨-, hdenotes⟩ := denotes_of_cells? hcells
  refine ⟨fun a v => ?_, ?_, fun a => ?_, ?_⟩
  · rw [hget, mem_cells_iff hdenotes]
    exact exists_congr fun x => and_congr_right fun _ => ⟨fun h => ⟨h.address, h.value⟩,
      fun h => ⟨h.1, h.2⟩⟩
  · exact List.pairwise_map.2 (d.ascending.imp fun h => compareOfLessAndEq_eq_lt.1 h)
  · rw [Table.mem_keys_iff]
    simp only [hget, mem_cells_iff hdenotes]
    constructor
    · rintro ⟨v, x, hx, hxa⟩
      exact ⟨x, hx, hxa.address⟩
    · rintro ⟨x, hx, hxa⟩
      obtain ⟨⟨b, v⟩, -, hxc⟩ := Table.exists_of_forall₂_left hdenotes hx
      cases BitVec.eq_of_toNat_eq (hxa.unique hxc.address)
      exact ⟨v, x, hx, hxc⟩
  · have hperm : d.entries.Perm cells :=
      (List.perm_ext_iff_of_nodup Table.entries_nodup (hnodup.of_map _)).2 fun c =>
        Table.mem_entries_iff.trans (hget c.1 c.2)
    rw [Table.size, hperm.length_eq, ← hdenotes.length_eq, length_elements, Table.values,
      List.map_map]
    rfl

/-- A listing becomes the dump of all its values, unless one of them is no number, lies past the
last address or shares its address with another one. -/
theorem expandsExactly (l : Listing) : l.ExpandsExactly where
  ok_iff := ⟨fun ⟨_, hd⟩ => .of_records (ofListing_ok_iff.1 hd), exists_ofListing_ok⟩
  expands _ hd := .of_records (ofListing_ok_iff.1 hd)
  repeated e a hl hmessages := by
    cases DumpError.eq_repeated_of_messages hmessages
    rcases insertEntries_blocked Table.keys_nodup hl with ⟨_, _, _, _, he⟩ | hblocked
    · cases he
    · cases hblocked with
      | taken hx hxa ha => cases ha
      | repeated hx hy hne hxa hya => exact ⟨_, hx, _, hy, hne, hxa, hya⟩

example : ofListing (.ofList [(.number 0x20#64, .many [.number 1#64, .text "0x2"]),
    (.text "33", .one (.number 5#64))]) = .error (.repeated 0x21#64) := by decide +kernel

end Listing

end Dump

end RegAtlas
