import RegAtlas.Listing.Reader
import RegAtlas.Proofs.Table.Repeated

namespace RegAtlas.Listing

open Table (FilledBy kept)

variable {α β δ : Type} {n : Node}

/-- A key of a table as text. A table in which one is no text is refused. -/
def keyText (k : Node) : String := (readText k).toOption.getD ""

/-- All pairs of a map, also where several have one key. -/
def pairs : Node → List (String × Node)
  | .map es | .tagged (.map es) => es.map fun e => (keyText e.1, e.2)
  | _ => []

def typedPairs (n : Node) : List (String × Node) := n.typed?.elim [] pairs

theorem readPairs_ok {read : Node → Read α} {es : List (Node × Node)} {t u : Named α}
    (h : readPairs read es t = .ok u) : ∃ qs,
      Table.Pointwise (fun _ v a => read v = .ok a) (es.map fun e => (keyText e.1, e.2)) qs ∧
        u = qs.foldl (fun t q => t.insert q.1 q.2) t := by
  induction es generalizing t with
  | nil =>
    cases h
    exact ⟨[], .nil, rfl⟩
  | cons e es ih =>
    obtain ⟨k, v⟩ := e
    obtain ⟨key, hkey, h⟩ := Success.bind_eq_ok.1 h
    obtain ⟨a, ha, h⟩ := Success.bind_eq_ok.1 h
    obtain ⟨qs, hqs, rfl⟩ := ih h
    have htext : keyText k = key := by rw [keyText, hkey]; rfl
    exact ⟨(key, a) :: qs, .cons ⟨htext.symm, ha⟩ hqs, rfl⟩

theorem readTable_ok {read : Node → Read α} {t : Named α} (h : readTable read n = .ok t) :
    FilledBy (fun _ v a => read v = .ok a) (kept (pairs n)) t := by
  have filled {es : List (Node × Node)} (h : readPairs read es .empty = .ok t) :
      FilledBy (fun _ v a => read v = .ok a)
        (kept (es.map fun e => (keyText e.1, e.2))) t := by
    obtain ⟨qs, hqs, rfl⟩ := readPairs_ok h
    exact hqs.filledBy_kept
  unfold readTable at h
  split at h
  next => exact filled h
  next => exact filled h
  next hmap htagged =>
    split at h
    next =>
      cases h
      rw [pairs.eq_3 n hmap htagged]
      exact .empty
    next => cases h

theorem pairs_of_scalar {read : Node → Read α} {a : α} (hmap : ∀ es, read (.map es) ≠ .ok a)
    (htagged : ∀ es, read (.tagged (.map es)) ≠ .ok a) (h : read n = .ok a) : pairs n = [] := by
  unfold pairs
  split
  next es => exact absurd h (hmap es)
  next es => exact absurd h (htagged es)
  next => rfl

theorem pairs_of_readText {s : String} : readText n = .ok s → pairs n = [] :=
  pairs_of_scalar nofun nofun

theorem pairs_of_readWord {w : Word} : readWord n = .ok w → pairs n = [] :=
  pairs_of_scalar nofun nofun

theorem readOption_ok {read : Node → Read α} {o : Option α} (h : readOption read n = .ok o) :
    (o = none ∧ pairs n = [] ∧ typedPairs n = []) ∨ ∃ a, o = some a ∧ read n = .ok a := by
  have present (h : (read n).map some = .ok o) : ∃ a, o = some a ∧ read n = .ok a := by
    obtain ⟨a, ha, rfl⟩ := Success.map_eq_ok.1 h
    exact ⟨a, rfl, ha⟩
  unfold readOption at h
  split at h
  next =>
    cases h
    exact .inl ⟨rfl, rfl, rfl⟩
  next =>
    split at h
    next =>
      cases h
      exact .inl ⟨rfl, rfl, rfl⟩
    next => exact .inr (present h)
  next =>
    split at h
    next => cases h
    next => exact .inr (present h)
  next => exact .inr (present h)

theorem readAlternatives_ok {name : String} {alternatives : Node → Option α} {a : α}
    (h : readAlternatives name alternatives n = .ok a) :
    ∃ v, n.typed? = some v ∧ alternatives v = some a := by
  unfold readAlternatives at h
  split at h
  next a' ha =>
    cases h
    exact Option.bind_eq_some_iff.1 ha
  next => cases h

def ReadAs (read : Node → Read α) (f : α → β) (v : Node) (b : β) : Prop :=
  ∃ a, read v = .ok a ∧ f a = b

/-- A value of the key leaves `p` as it is. -/
def Key.Keeps (key : Key δ) (p : δ → β) : Prop := ∀ v d d', key.put v d = .ok d' → p d' = p d

section Putting

variable {read : Node → Read α} {set : δ → α → δ} {p : δ → β} {name : String}

@[simp] theorem Key.keeps_iff {alias? : Option String} {hasDefault : Bool} :
    Key.Keeps ⟨name, alias?, hasDefault, putting read set⟩ p ↔
      ∀ v d a, read v = .ok a → p (set d a) = p d := by
  constructor
  · intro h v d a ha
    refine h v d _ ?_
    change (read v).map (set d) = .ok (set d a)
    rw [ha, Except.map]
  · intro h v d d' hd
    obtain ⟨a, ha, rfl⟩ := Success.map_eq_ok.1 hd
    exact h v d a ha

@[simp] theorem Key.keeps_plain_iff :
    (Key.plain name read set).Keeps p ↔ ∀ v d a, read v = .ok a → p (set d a) = p d :=
  keeps_iff

@[simp] theorem Key.keeps_optional_iff :
    (Key.optional name read set).Keeps p ↔ ∀ v d a, read v = .ok a → p (set d a) = p d :=
  keeps_iff

end Putting

namespace Draft

variable {ρ : Type} {d : Draft ρ α} {r : ρ} {set : α → β → α} {b : β}

@[simp] theorem snd_found : (found d r).2 = d.2 := rfl

@[simp] theorem fst_rest : (rest set d b).1 = d.1 := rfl

@[simp] theorem snd_rest : (rest set d b).2 = set d.2 b := rfl

end Draft

namespace Shape

variable {s : Shape δ} {i : Nat} {p : δ → β} {R : Node → β → Prop} {d d' : δ}

/-- What the record `n` gives for its key at position `i`. -/
def given (s : Shape δ) (i : Nat) : Node → List Node
  | .map es | .tagged (.map es) =>
    es.filterMap fun e => if (s.locate e.1).toOption = some i then some e.2 else none
  | .list ns | .tagged (.list ns) => ns[i]?.toList
  | _ => []

/-- The pairs that the record `n` gives for its key at position `i`. -/
def table (s : Shape δ) (i : Nat) (n : Node) : List (String × Node) := (s.given i n).flatMap pairs

def typedTable (s : Shape δ) (i : Nat) (n : Node) : List (String × Node) :=
  (s.given i n).flatMap typedPairs

/-- The key at position `i` is read into `p`, which no other key changes. -/
structure Reads (s : Shape δ) (i : Nat) (p : δ → β) (R : Node → β → Prop) : Prop where
  set : ∀ v d d', s.put i v d = .ok d' → R v (p d')
  keep : ∀ j ≠ i, ∀ v d d', s.put j v d = .ok d' → p d' = p d

/-- What was read for a key that is given as `vs`, into `b` and then `b'`. -/
def Given (R : Node → β → Prop) (vs : List Node) (b b' : β) : Prop :=
  vs = [] ∧ b' = b ∨ ∃ v, vs = [v] ∧ R v b'

theorem given_cons {e : Node × Node} {es : List (Node × Node)} {j : Nat}
    (h : s.locate e.1 = .ok j) :
    s.given i (.map (e :: es)) =
      if j = i then e.2 :: s.given i (.map es) else s.given i (.map es) := by
  have hlocate : (s.locate e.1).toOption = some j := by rw [h]; rfl
  simp only [given, List.filterMap_cons, hlocate, Option.some.injEq]
  split_ifs <;> rfl

theorem put_eq {key : Key δ} (h : s.keys[i]? = some key) : s.put i = key.put := by
  funext v d
  rw [put, h]

namespace Reads

theorem of_key {key : Key δ} {read : Node → Read α} {set : δ → α → δ} {f : α → β}
    (hkey : s.keys[i]? = some key) (hput : key.put = putting read set)
    (hset : ∀ d a, p (set d a) = f a) (hkeep : ∀ key ∈ s.keys.eraseIdx i, key.Keeps p) :
    s.Reads i p (ReadAs read f) where
  set v d d' h := by
    rw [put_eq hkey, hput] at h
    obtain ⟨a, ha, rfl⟩ := Success.map_eq_ok.1 h
    exact ⟨a, ha, (hset d a).symm⟩
  keep j hj v d d' h := by
    unfold put at h
    split at h
    next key hkey =>
      exact hkeep key (List.mem_eraseIdx_iff_getElem?.2 ⟨j, hj, hkey⟩) v d d' h
    next =>
      cases h
      rfl

theorem readEntries_ok (hr : s.Reads i p R) {es : List (Node × Node)} {seen : List Nat}
    (h : s.readEntries es seen d = .ok d') :
    Given R (s.given i (.map es)) (p d) (p d') ∧ (i ∈ seen → s.given i (.map es) = []) := by
  induction es generalizing seen d with
  | nil =>
    cases h
    exact ⟨.inl ⟨rfl, rfl⟩, fun _ => rfl⟩
  | cons e es ih =>
    obtain ⟨j, hj, h⟩ := Success.bind_eq_ok.1 h
    split at h
    next => cases h
    next hseen =>
      obtain ⟨d₁, hput, h⟩ := Success.bind_eq_ok.1 h
      obtain ⟨hgiven, hnone⟩ := ih h
      rw [given_cons hj]
      by_cases hi : j = i
      · subst hi
        have hrest := hnone List.mem_cons_self
        rw [if_pos rfl, hrest]
        refine ⟨.inr ⟨e.2, rfl, ?_⟩, fun hmem => absurd (List.contains_iff_mem.2 hmem) hseen⟩
        obtain ⟨-, hsame⟩ | ⟨v, hv, -⟩ := hgiven
        · rw [hsame]
          exact hr.set _ _ _ hput
        · rw [hrest] at hv
          cases hv
      · rw [if_neg hi, ← hr.keep j hi _ _ _ hput]
        exact ⟨hgiven, fun hmem => hnone (List.mem_cons_of_mem _ hmem)⟩

theorem readItems_ok (hr : s.Reads i p R) {size j : Nat} {ns : List Node}
    (h : s.readItems size j ns d = .ok d') :
    (j ≤ i → Given R (ns[i - j]?.toList) (p d) (p d')) ∧ (i < j → p d' = p d) := by
  induction ns generalizing j d with
  | nil =>
    unfold readItems at h
    split at h
    next => cases h
    next =>
      cases h
      exact ⟨fun _ => .inl ⟨rfl, rfl⟩, fun _ => rfl⟩
  | cons n ns ih =>
    unfold readItems at h
    split at h
    next =>
      obtain ⟨d₁, hput, h⟩ := Success.bind_eq_ok.1 h
      obtain ⟨hat, hpast⟩ := ih h
      rcases Nat.lt_trichotomy j i with hlt | rfl | hlt
      · have hindex : i - j = i - (j + 1) + 1 := by omega
        rw [hindex, List.getElem?_cons_succ, ← hr.keep j (Nat.ne_of_lt hlt) _ _ _ hput]
        exact ⟨fun _ => hat hlt, fun hi => by omega⟩
      · rw [Nat.sub_self, hpast j.lt_succ_self]
        exact ⟨fun _ => .inr ⟨n, rfl, hr.set _ _ _ hput⟩, fun hi => by omega⟩
      · have hsame := hr.keep j (Nat.ne_of_gt hlt) _ _ _ hput
        exact ⟨fun hi => by omega, fun _ => (hpast (by omega)).trans hsame⟩
    next => cases h

theorem read_ok (hr : s.Reads i p R) {start : δ} {finish : δ → Read α} {a : α}
    (h : s.read start finish n = .ok a) :
    ∃ d, finish d = .ok a ∧ Given R (s.given i n) (p start) (p d) := by
  unfold read at h
  split at h
  next es =>
    obtain ⟨d, hd, h⟩ := Success.bind_eq_ok.1 h
    exact ⟨d, h, (hr.readEntries_ok hd).1⟩
  next es =>
    obtain ⟨d, hd, h⟩ := Success.bind_eq_ok.1 h
    exact ⟨d, h, (hr.readEntries_ok hd).1⟩
  next ns =>
    obtain ⟨d, hd, h⟩ := Success.bind_eq_ok.1 h
    exact ⟨d, h, (hr.readItems_ok hd).1 i.zero_le⟩
  next ns =>
    obtain ⟨d, hd, h⟩ := Success.bind_eq_ok.1 h
    exact ⟨d, h, (hr.readItems_ok hd).1 i.zero_le⟩
  next hmap htagged hlist htaggedList =>
    split at h
    next =>
      rw [given.eq_5 _ _ n hmap htagged hlist htaggedList]
      exact ⟨start, h, .inl ⟨rfl, rfl⟩⟩
    next => cases h

end Reads

theorem length_given_le {start : δ} {finish : δ → Read α} {a : α}
    (h : s.read start finish n = .ok a) (i : Nat) : (s.given i n).length ≤ 1 := by
  -- Any key reads into nothing.
  have hr : s.Reads i (fun _ => ()) fun _ _ => True :=
    ⟨fun _ _ _ _ => trivial, fun _ _ _ _ _ _ => rfl⟩
  obtain ⟨d, -, ⟨hnone, -⟩ | ⟨v, hv, -⟩⟩ := hr.read_ok h
  · simp [hnone]
  · simp [hv]

end Shape

end RegAtlas.Listing
