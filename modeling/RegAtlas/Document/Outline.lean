namespace RegAtlas

inductive Outline where
  | free
  | table (value : Outline)
  /-- A map with the given keys, or a list of their values. Each key has its names, whether its
  value may be missing, and what else is known of it. -/
  | record (keys : List (List String × Bool × Outline))

namespace Outline

instance : Inhabited Outline := ⟨free⟩

structure Slot where
  optional : Bool
  outline : Outline

def Slot.free : Slot := ⟨false, .free⟩

def atKey (o : Outline) (key : String) : Slot :=
  match o with
  | free => .free
  | table value => ⟨false, value⟩
  | record keys => ((keys.find? (·.1.contains key)).map fun k => ⟨k.2.1, k.2.2⟩).getD .free

def atItem (o : Outline) (i : Nat) : Slot :=
  match o with
  | free | table _ => .free
  | record keys => (keys[i]?.map fun k => ⟨k.2.1, k.2.2⟩).getD .free

def size? : Outline → Option Nat
  | free | table _ => none
  | record keys => some keys.length

end Outline

end RegAtlas
