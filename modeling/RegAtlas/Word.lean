namespace RegAtlas

/-- Number of bits in a word, and the largest width a register may have. -/
def wordSize : Nat := 64

abbrev Word := BitVec 64

namespace Word

def zero : Word := 0#64

/-- The lowest `width` bits set. All widths from 64 on give all ones. -/
def lowMask (width : Nat) : Word := BitVec.allOnes 64 >>> (wordSize - width)

def fits (v : Word) (width : Nat) : Bool := v &&& ~~~(lowMask width) == zero

def within (v mask : Word) : Bool := v &&& ~~~mask == zero

def bit (position : Nat) : Word := 1#64 <<< position

def ofNat? (n : Nat) : Option Word := if n < 1 <<< wordSize then some (BitVec.ofNat 64 n) else none

def add? (a b : Word) : Option Word := ofNat? (a.toNat + b.toNat)

def bitLength (v : Word) : Nat := if v = zero then 0 else v.toNat.log2 + 1

theorem getLsbD_lowMask (width i : Nat) :
    (lowMask width).getLsbD i = (decide (i < 64) && decide (i < width)) := by
  simp only [lowMask, wordSize, BitVec.getLsbD_ushiftRight, BitVec.getLsbD_allOnes]
  by_cases h : i < width <;> by_cases h' : i < 64 <;> simp [h, h'] <;> omega

theorem getLsbD_bit (position i : Nat) :
    (bit position).getLsbD i = (decide (i < 64) && decide (i = position)) := by
  simp only [bit, BitVec.getLsbD_shiftLeft, BitVec.getLsbD_one]
  by_cases h : i = position <;> by_cases h' : i < 64 <;> simp [h, h']
  omega

theorem ofNat?_toNat (w : Word) : ofNat? w.toNat = some w := by
  simp [ofNat?, wordSize, w.isLt]

theorem toNat_of_ofNat? {n : Nat} {w : Word} (h : ofNat? n = some w) : w.toNat = n := by
  unfold ofNat? wordSize at h
  split at h
  next hn => rw [← Option.some.inj h, BitVec.toNat_ofNat, Nat.mod_eq_of_lt (by simpa using hn)]
  next => contradiction

end Word

end RegAtlas
