import RegAtlas.BitRange

namespace RegAtlas

structure BitSet where
  positions : List Nat
  ascending : positions.Pairwise (· < ·)
deriving Repr, DecidableEq

namespace BitSet

def insertPosition (b : Nat) : List Nat → List Nat
  | [] => [b]
  | x :: xs => if b < x then b :: x :: xs else if b = x then x :: xs else x :: insertPosition b xs

theorem mem_insertPosition {b i : Nat} {xs : List Nat} :
    i ∈ insertPosition b xs ↔ i = b ∨ i ∈ xs := by
  induction xs with
  | nil => simp [insertPosition]
  | cons x xs ih => grind [insertPosition]

theorem pairwise_insertPosition {b : Nat} {xs : List Nat} (h : xs.Pairwise (· < ·)) :
    (insertPosition b xs).Pairwise (· < ·) := by
  induction xs with
  | nil => simp [insertPosition]
  | cons x xs ih =>
    simp only [List.pairwise_cons] at h
    grind [insertPosition, mem_insertPosition, List.pairwise_cons]

def empty : BitSet := ⟨[], .nil⟩

instance : Inhabited BitSet := ⟨empty⟩

def insert (b : Nat) (s : BitSet) : BitSet :=
  ⟨insertPosition b s.positions, pairwise_insertPosition s.ascending⟩

def ofPositions (ps : List Nat) : BitSet := ps.foldr insert empty

def ofRange (r : BitRange) : BitSet := ⟨r.positions, r.pairwise_positions⟩

def ofRanges (rs : List BitRange) : BitSet := ofPositions (rs.flatMap BitRange.positions)

def ofSpan (lsb width : Nat) : Except BitError BitSet := (BitRange.make lsb width).map ofRange

/-- The given positions, unless one lies outside the word. The first such is reported. -/
def ofList? (ps : List Nat) : Except BitError BitSet :=
  match ps.find? (wordSize ≤ ·) with
  | some p => .error (.positionTooLarge p)
  | none => .ok (ofPositions ps)

def below (width : Nat) (p : Nat → Bool) : BitSet :=
  ⟨(List.range width).filter p, List.pairwise_lt_range.filter p⟩

def ofMask (mask : Word) : BitSet := below wordSize mask.getLsbD

def size (s : BitSet) : Nat := s.positions.length

def isEmpty (s : BitSet) : Bool := s.positions.isEmpty

def contains (s : BitSet) (b : Nat) : Bool := s.positions.elem b

instance : Membership Nat BitSet := ⟨fun s b => b ∈ s.positions⟩

/-- The word with a one at each member. Members from 64 on have no place in it. -/
def mask (s : BitSet) : Word := s.positions.foldl (fun m b => m ||| Word.bit b) Word.zero

def runs : List Nat → List BitRange
  | [] => []
  | b :: bs =>
    match runs bs with
    | r :: rs =>
      if r.lsb = b + 1 then ⟨b, r.width + 1, Nat.succ_pos _⟩ :: rs else .single b :: r :: rs
    | [] => [.single b]

def ranges (s : BitSet) : List BitRange := runs s.positions

def range (s : BitSet) : Except BitError BitRange :=
  match s.ranges with
  | [r] => .ok r
  | [] => .error .emptySet
  | _ => .error (.notContiguous s.mask)

def isContiguous (s : BitSet) : Bool := s.ranges.length == 1

def lsb? (s : BitSet) : Option Nat := s.positions.head?

def msb? (s : BitSet) : Option Nat := s.positions.getLast?

def lsb (s : BitSet) : Except BitError Nat := s.lsb?.elim (.error .emptySet) .ok

def msb (s : BitSet) : Except BitError Nat := s.msb?.elim (.error .emptySet) .ok

def spanWidth (s : BitSet) : Nat :=
  match s.lsb?, s.msb? with
  | some l, some m => m - l + 1
  | _, _ => 0

def filter (s : BitSet) (p : Nat → Bool) : BitSet :=
  ⟨s.positions.filter p, s.ascending.filter p⟩

def raise (s : BitSet) (amount : Nat) : BitSet :=
  ⟨s.positions.map (· + amount),
    s.ascending.map _ fun _ _ h => Nat.add_lt_add_right h _⟩

/-- Every member moved up. Fails at the lowest member that would leave the word. -/
def shiftLeft (s : BitSet) (amount : Nat) : Except BitError BitSet :=
  match s.positions.find? fun b => wordSize ≤ b + amount with
  | some b => .error (.shiftOverflow b amount)
  | none => .ok (s.raise amount)

def shiftRight (s : BitSet) (amount : Nat) : BitSet where
  positions := (s.positions.filter (amount ≤ ·)).map (· - amount)
  ascending := by
    refine List.pairwise_map.2 ((s.ascending.filter _).imp_of_mem ?_)
    intro a b ha hb h
    have := (List.mem_filter.1 ha).2
    have := (List.mem_filter.1 hb).2
    simp only [decide_eq_true_eq] at *
    omega

/-- The positions below `width` that are not members, of which none may lie outside. -/
def complement (s : BitSet) (width : Nat) : Except BitError BitSet :=
  match s.msb? with
  | some m =>
    if width ≤ m then .error (.widthTooSmall m width) else .ok (below width fun b => !s.contains b)
  | none => .ok (below width fun _ => true)

def union (s t : BitSet) : BitSet := s.positions.foldr insert t

def inter (s t : BitSet) : BitSet := s.filter t.contains

def diff (s t : BitSet) : BitSet := s.filter fun b => !t.contains b

def overlaps (s t : BitSet) : Bool := s.positions.any t.contains

def unpositioned (s : BitSet) : BitSet := s.shiftRight (s.lsb?.getD 0)

def extract (s : BitSet) (v : Word) : Except BitError Word :=
  s.lsb.map fun l => (v &&& s.mask) >>> l

def text (s : BitSet) : String := ", ".intercalate (s.ranges.reverse.map BitRange.text)

end BitSet

end RegAtlas
