import RegAtlas.BitError

namespace RegAtlas

structure BitRange where
  lsb : Nat
  width : Nat
  width_pos : 0 < width
deriving Repr, DecidableEq

def maxPosition : Nat := (1 <<< 32) - 1

namespace BitRange

def msb (r : BitRange) : Nat := r.lsb + r.width - 1

def make (lsb width : Nat) : Except BitError BitRange :=
  if h : width = 0 then .error (.emptyRange lsb width)
  else
    let r : BitRange := ⟨lsb, width, Nat.pos_of_ne_zero h⟩
    if r.msb < wordSize then .ok r else .error (.positionTooLarge (min r.msb maxPosition))

def single (position : Nat) : BitRange := ⟨position, 1, Nat.one_pos⟩

def mask (r : BitRange) : Word := Word.lowMask r.width <<< r.lsb

def positions (r : BitRange) : List Nat := (List.range r.width).map (r.lsb + ·)

def contains (r : BitRange) (position : Nat) : Bool :=
  decide (r.lsb ≤ position ∧ position ≤ r.msb)

def extract (r : BitRange) (v : Word) : Word := (v &&& r.mask) >>> r.lsb

/-- A single bit is written as its position, a longer run as its ends with the higher first. -/
def text (r : BitRange) : String := if r.width = 1 then s!"{r.lsb}" else s!"{r.msb}-{r.lsb}"

theorem mem_positions {r : BitRange} {i : Nat} : i ∈ r.positions ↔ r.lsb ≤ i ∧ i ≤ r.msb := by
  have hw := r.width_pos
  simp only [positions, msb, List.mem_map, List.mem_range]
  constructor
  · rintro ⟨k, hk, rfl⟩; omega
  · intro h; exact ⟨i - r.lsb, by omega, by omega⟩

theorem pairwise_positions (r : BitRange) : r.positions.Pairwise (· < ·) :=
  List.Pairwise.map _ (fun _ _ h => Nat.add_lt_add_left h _) List.pairwise_lt_range

end BitRange

end RegAtlas
