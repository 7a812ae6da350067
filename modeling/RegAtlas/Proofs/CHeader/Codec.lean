import Mathlib.Logic.Function.Basic
import RegAtlas.CHeader.Printer
import RegAtlas.Proofs.BitSet.Mask

namespace RegAtlas.CHeader

/-- Expressions over a packed value `val` and the members of a struct `r`. -/
inductive Expr where
  | val
  | member (name : String)
  | literal (l : Literal)
  | packed (e : Expr)
  | complement (e : Expr)
  | and (a b : Expr)
  | or (a b : Expr)
  | shiftLeft (e : Expr) (amount : Nat)
  | shiftRight (e : Expr) (amount : Nat)

namespace Expr

def text (p : CWord) : Expr → String
  | val => "val"
  | member name => "r->" ++ name
  | literal l => l.text
  | packed e => "(" ++ p.text ++ ")" ++ e.text p
  | complement e => "~" ++ e.text p
  | and a b => "(" ++ a.text p ++ " & " ++ b.text p ++ ")"
  | or a b => "(" ++ a.text p ++ " | " ++ b.text p ++ ")"
  | shiftLeft e n => "(" ++ e.text p ++ " << " ++ (Literal.decimal n).text ++ ")"
  | shiftRight e n => "(" ++ e.text p ++ " >> " ++ (Literal.decimal n).text ++ ")"

/-- The value in the unsigned arithmetic of the packed type. -/
def eval (p : CWord) (r : String → Nat) (v : BitVec p.width) : Expr → BitVec p.width
  | val => v
  | member name => BitVec.ofNat p.width (r name)
  | literal l => BitVec.ofNat p.width l.value
  | packed e => e.eval p r v
  | complement e => ~~~(e.eval p r v)
  | and a b => a.eval p r v &&& b.eval p r v
  | or a b => a.eval p r v ||| b.eval p r v
  | shiftLeft e n => e.eval p r v <<< n
  | shiftRight e n => e.eval p r v >>> n

def masked (mask : Word) : Expr := and val (literal (.sized mask))

def cleared (mask : Word) : Expr := and val (complement (packed (literal (.sized mask))))

end Expr

/-- Assignments, each with a conversion to the type of what is assigned to. -/
inductive Statement where
  | setVal (e : Expr)
  | setMember (name : String) (type : MemberType) (e : Expr)

def Statement.text (p : CWord) : Statement → String
  | setVal e => "  val = (" ++ p.text ++ ")" ++ e.text p ++ ";"
  | setMember name type e => "  r->" ++ name ++ " = (" ++ type.text ++ ")" ++ e.text p ++ ";"

def FixedBits.statement (f : FixedBits) : Statement :=
  .setVal (.or (.cleared f.mask) (.literal (.sized f.value)))

def PackStep.statement (s : PackStep) : Statement :=
  .setVal (.or (.cleared s.mask)
    (.shiftLeft (.packed (.and (.member s.member) (.literal (.sized s.unpositioned)))) s.shift))

def UnpackStep.statement (s : UnpackStep) : Statement :=
  .setMember s.member s.type (.shiftRight (.masked s.mask) s.shift)

/-- What C leaves to the compiler: how far the numbers go that an enumeration type holds, and what
becomes of those that it does not hold. -/
structure Compiler where
  range : String → Nat
  enumeration : String → Nat → Nat
  enumeration_of_lt : ∀ {tag x}, x < range tag → enumeration tag x = x

def Item.enumerations : Item → List EnumDecl
  | enumeration decl => [decl]
  | _ => []

def Header.enumerations (h : Header) : List EnumDecl := h.flatMap Item.enumerations

/-- A struct by the numbers of its members, and the packed value next to it. -/
structure Store (p : CWord) where
  members : String → Nat
  val : BitVec p.width

structure Codec where
  tag : String
  packed : CWord
  members : List Member
  fixed : Option FixedBits
  packSteps : List PackStep
  unpackSteps : List UnpackStep

namespace Codec

def overwriting (c : Codec) : List Statement :=
  c.fixed.toList.map FixedBits.statement ++ c.packSteps.map PackStep.statement

def unpacking (c : Codec) : List Statement := c.unpackSteps.map UnpackStep.statement

end Codec

namespace Compiler

variable {p : CWord}

def convert (cc : Compiler) : MemberType → Nat → Nat
  | .word type, x => x % 2 ^ type.width
  | .enumeration tag, x => cc.enumeration tag x

def step (cc : Compiler) (s : Store p) : Statement → Store p
  | .setVal e => ⟨s.members, e.eval p s.members s.val⟩
  | .setMember name type e =>
    ⟨Function.update s.members name (cc.convert type (e.eval p s.members s.val).toNat), s.val⟩

def run (cc : Compiler) (statements : List Statement) (s : Store p) : Store p :=
  statements.foldl cc.step s

def overwrite (cc : Compiler) (c : Codec) (r : String → Nat) (val : BitVec c.packed.width) :
    BitVec c.packed.width :=
  (cc.run c.overwriting ⟨r, val⟩).val

def pack (cc : Compiler) (c : Codec) (r : String → Nat) : BitVec c.packed.width :=
  cc.overwrite c r 0

def unpackInto (cc : Compiler) (c : Codec) (val : BitVec c.packed.width) (r : String → Nat) :
    String → Nat :=
  (cc.run c.unpacking ⟨r, val⟩).members

/-- C asks of a compiler that an enumeration type holds its enumerators. -/
def HoldsEnumerators (cc : Compiler) (h : Header) : Prop :=
  ∀ d ∈ h.enumerations, ∀ e ∈ d.entries, e.value.toNat < cc.range d.tag

instance (cc : Compiler) (h : Header) : Decidable (cc.HoldsEnumerators h) :=
  inferInstanceAs
    (Decidable (∀ d ∈ h.enumerations, ∀ e ∈ d.entries, e.value.toNat < cc.range d.tag))

/-- A compiler with enumeration types of 32 bits, which is usual where the enumerators need no
more. -/
def narrow : Compiler where
  range _ := 2 ^ 32
  enumeration _ x := x % 2 ^ 32
  enumeration_of_lt := Nat.mod_eq_of_lt

end Compiler

section Steps

variable {cc : Compiler} {p : CWord}

def FixedBits.run (p : CWord) (f : FixedBits) (val : BitVec p.width) : BitVec p.width :=
  (val &&& ~~~(f.mask.setWidth p.width)) ||| f.value.setWidth p.width

def PackStep.run (p : CWord) (s : PackStep) (x : Nat) (val : BitVec p.width) : BitVec p.width :=
  (val &&& ~~~(s.mask.setWidth p.width)) |||
    (BitVec.ofNat p.width (x &&& s.unpositioned.toNat) <<< s.shift)

/-- What a step takes out of a value, before it is made a number of the member's type. -/
def UnpackStep.taken (p : CWord) (s : UnpackStep) (val : BitVec p.width) : Nat :=
  ((val &&& s.mask.setWidth p.width) >>> s.shift).toNat

theorem Expr.eval_sized (r : String → Nat) (v : BitVec p.width) (w : Word) :
    (Expr.literal (.sized w)).eval p r v = w.setWidth p.width :=
  BitVec.ofNat_toNat p.width w

theorem Expr.eval_cleared (r : String → Nat) (v : BitVec p.width) (mask : Word) :
    (cleared mask).eval p r v = v &&& ~~~(mask.setWidth p.width) := by
  rw [cleared, eval, eval, eval, eval, eval_sized]

theorem Compiler.step_fixed (cc : Compiler) (f : FixedBits) (s : Store p) :
    cc.step s f.statement = ⟨s.members, f.run p s.val⟩ := by
  rw [FixedBits.statement, step, Expr.eval, Expr.eval_cleared, Expr.eval_sized, FixedBits.run]

theorem Compiler.step_pack (t : PackStep) (s : Store p) :
    cc.step s t.statement = ⟨s.members, t.run p (s.members t.member) s.val⟩ := by
  rw [PackStep.statement, step, Expr.eval, Expr.eval_cleared, PackStep.run, BitVec.ofNat_and]
  rfl

theorem Compiler.step_unpack (u : UnpackStep) (s : Store p) :
    cc.step s u.statement =
      ⟨Function.update s.members u.member (cc.convert u.type (u.taken p s.val)), s.val⟩ := by
  rw [UnpackStep.statement, step, Expr.eval, Expr.masked, Expr.eval, Expr.eval, Expr.eval_sized]
  rfl

def write (p : CWord) (r : String → Nat) (steps : List PackStep) (val : BitVec p.width) :
    BitVec p.width :=
  steps.foldl (fun v s => s.run p (r s.member) v) val

theorem Compiler.run_pack (steps : List PackStep) (s : Store p) :
    cc.run (steps.map PackStep.statement) s = ⟨s.members, write p s.members steps s.val⟩ := by
  induction steps generalizing s with
  | nil => rfl
  | cons t steps ih =>
    rw [List.map_cons, run, List.foldl_cons, step_pack]
    exact ih _

def Codec.fix (c : Codec) (val : BitVec c.packed.width) : BitVec c.packed.width :=
  c.fixed.elim val fun f => f.run c.packed val

theorem Compiler.overwrite_eq (cc : Compiler) (c : Codec) (r : String → Nat)
    (val : BitVec c.packed.width) :
    cc.overwrite c r val = write c.packed r c.packSteps (c.fix val) := by
  have hfix : cc.run (c.fixed.toList.map FixedBits.statement) ⟨r, val⟩ = ⟨r, c.fix val⟩ := by
    unfold Codec.fix
    cases c.fixed with
    | none => rfl
    | some f => exact cc.step_fixed f _
  rw [overwrite, Codec.overwriting, run, List.foldl_append, ← run, ← run, hfix, run_pack]

section Unpack

variable {us : List UnpackStep} {u : UnpackStep} {s : Store p} {name : String}

theorem Compiler.run_unpack_cons : cc.run ((u :: us).map UnpackStep.statement) s =
    cc.run (us.map UnpackStep.statement)
      ⟨Function.update s.members u.member (cc.convert u.type (u.taken p s.val)), s.val⟩ := by
  rw [List.map_cons, run, List.foldl_cons, step_unpack, run]

theorem Compiler.members_of_not_mem (h : name ∉ us.map UnpackStep.member) :
    (cc.run (us.map UnpackStep.statement) s).members name = s.members name := by
  induction us generalizing s with
  | nil => rfl
  | cons u us ih =>
    rw [List.map_cons, List.mem_cons, not_or] at h
    rw [run_unpack_cons, ih h.2]
    exact Function.update_of_ne h.1 _ _

theorem Compiler.members_of_mem (hnodup : (us.map UnpackStep.member).Nodup) (hu : u ∈ us) :
    (cc.run (us.map UnpackStep.statement) s).members u.member =
      cc.convert u.type (u.taken p s.val) := by
  induction us generalizing s with
  | nil => cases hu
  | cons t us ih =>
    rw [List.map_cons, List.nodup_cons] at hnodup
    rw [run_unpack_cons]
    rcases List.mem_cons.1 hu with rfl | hu
    · rw [members_of_not_mem hnodup.1]
      exact Function.update_self _ _ _
    · exact ih hnodup.2 hu

end Unpack

end Steps

section Text

variable {p : CWord}

theorem clearedText_eq (p : CWord) (mask : Word) :
    clearedText p mask = (Expr.cleared mask).text p := by
  apply String.ext
  simp [clearedText, Expr.cleared, Expr.text]

theorem FixedBits.lines_eq (f : FixedBits) :
    f.lines p = ["  // Always write:", f.statement.text p] := by
  refine congrArg (["  // Always write:", ·]) (String.ext ?_)
  simp [statement, Statement.text, Expr.text, clearedText_eq]

theorem PackStep.lines_eq (s : PackStep) :
    s.lines p = ["  // " ++ s.comment ++ ":", s.statement.text p] := by
  refine congrArg (["  // " ++ s.comment ++ ":", ·]) (String.ext ?_)
  simp [statement, Statement.text, Expr.text, clearedText_eq]

theorem UnpackStep.line_eq (s : UnpackStep) : s.line = s.statement.text p := by
  apply String.ext
  simp [line, statement, Statement.text, Expr.text, Expr.masked]

def isComment (line : String) : Bool := "  //".toList.isPrefixOf line.toList

/-- The lines of the body that hold statements. -/
def Function.code (f : Function) : List String := f.body.filter (!isComment ·)

theorem isComment_text (s : Statement) : isComment (s.text p) = false := by
  cases s <;> simp [isComment, Statement.text, List.isPrefixOf]

theorem filter_texts (ss : List Statement) :
    (ss.map (Statement.text p)).filter (!isComment ·) = ss.map (Statement.text p) := by
  apply List.filter_eq_self.2
  intro line hline
  obtain ⟨s, -, rfl⟩ := List.mem_map.1 hline
  rw [isComment_text, Bool.not_false]

theorem FixedBits.filter_lines (f : FixedBits) :
    (f.lines p).filter (!isComment ·) = [f.statement.text p] := by
  have hnote : isComment "  // Always write:" = true := by decide +kernel
  rw [lines_eq, List.filter_cons_of_neg (by simp [hnote]), ← List.map_singleton, filter_texts]

theorem PackStep.filter_lines (s : PackStep) :
    (s.lines p).filter (!isComment ·) = [s.statement.text p] := by
  have hnote : isComment ("  // " ++ s.comment ++ ":") = true := by simp [isComment]
  rw [lines_eq, List.filter_cons_of_neg (by simp [hnote]), ← List.map_singleton, filter_texts]

theorem Codec.code_overwrite (c : Codec) (name : String) :
    (Function.overwrite name c.tag c.packed c.fixed c.packSteps).code =
      c.overwriting.map (Statement.text c.packed) ++ ["  return val;"] := by
  have hfixed : (c.fixed.elim [] (·.lines c.packed)).filter (!isComment ·) =
      (c.fixed.toList.map FixedBits.statement).map (Statement.text c.packed) := by
    cases c.fixed with
    | none => rfl
    | some f => exact f.filter_lines
  have hsteps : (c.packSteps.flatMap (·.lines c.packed)).filter (!isComment ·) =
      (c.packSteps.map PackStep.statement).map (Statement.text c.packed) := by
    rw [List.filter_flatMap, List.map_map, List.map_eq_flatMap]
    exact List.flatMap_congr fun s _ => s.filter_lines
  have hreturn : ["  return val;"].filter (!isComment ·) = ["  return val;"] := by decide +kernel
  rw [Function.code, Function.body, List.filter_append, List.filter_append, hfixed, hsteps, hreturn,
    overwriting, List.map_append]

theorem Codec.code_unpackInto (c : Codec) (name : String) :
    (Function.unpackInto name c.tag c.packed c.unpackSteps).code =
      c.unpacking.map (Statement.text c.packed) := by
  have hlines : c.unpackSteps.map UnpackStep.line = c.unpacking.map (Statement.text c.packed) := by
    rw [unpacking, List.map_map]
    exact List.map_congr_left fun u _ => u.line_eq
  rw [Function.code, Function.body, hlines, filter_texts]

end Text

namespace Codec

/-- The header declares the struct and the functions. The statements of these are the ones that are
run, and each reads or sets a member of the struct. -/
structure DeclaredIn (c : Codec) (h : Header) : Prop where
  struct : ∃ docs, .struct ⟨c.tag, docs, c.members⟩ ∈ h
  pack : ∃ overwrite pack, .function (.overwrite overwrite c.tag c.packed c.fixed c.packSteps) ∈ h ∧
    .function (.pack pack c.tag c.packed overwrite) ∈ h
  unpack : ∃ unpackInto unpack,
    .function (.unpackInto unpackInto c.tag c.packed c.unpackSteps) ∈ h ∧
    .function (.unpack unpack c.tag c.packed unpackInto) ∈ h
  pack_code : ∀ name, (Function.overwrite name c.tag c.packed c.fixed c.packSteps).code =
    c.overwriting.map (Statement.text c.packed) ++ ["  return val;"]
  unpack_code : ∀ name, (Function.unpackInto name c.tag c.packed c.unpackSteps).code =
    c.unpacking.map (Statement.text c.packed)
  packed_members : c.packSteps.map PackStep.member = c.members.map Member.name
  unpacked_members : c.unpackSteps.map (fun s => (s.member, s.type)) =
    c.members.map fun m => (m.name, m.type)

/-- Nothing is cut off: literals are numbers of the packed type and shifts are less than its width,
members are moved inside it, and numbers taken out of a value fit members of an unsigned type and
bit-fields. -/
structure Lossless (c : Codec) : Prop where
  fixed_literals : ∀ f, c.fixed = some f →
    f.mask.toNat < 2 ^ c.packed.width ∧ f.value.toNat < 2 ^ c.packed.width
  pack_literals : ∀ s ∈ c.packSteps, s.mask.toNat < 2 ^ c.packed.width ∧
    s.unpositioned.toNat < 2 ^ c.packed.width ∧ s.shift < c.packed.width
  unpack_literals : ∀ s ∈ c.unpackSteps,
    s.mask.toNat < 2 ^ c.packed.width ∧ s.shift < c.packed.width
  placed : ∀ s ∈ c.packSteps, ∀ x,
    (x &&& s.unpositioned.toNat) <<< s.shift < 2 ^ c.packed.width
  word_members : ∀ s ∈ c.unpackSteps, ∀ type, s.type = .word type →
    ∀ v, s.taken c.packed v < 2 ^ type.width
  bit_fields : List.Forall₂ (fun m s => ∀ width, m.width = some width →
    ∀ v, s.taken c.packed v < 2 ^ width) c.members c.unpackSteps

end Codec

namespace CWord

variable {p : CWord} {width : Nat}

theorem width_le : p.width ≤ wordSize := by cases p <;> decide

theorem width_le_of_fitting (h : fitting? width = some p) : width ≤ p.width := by
  unfold fitting? at h
  split_ifs at h <;> cases h <;> assumption

theorem exists_fitting (hpos : 0 < width) (hle : width ≤ wordSize) :
    ∃ p, fitting? width = some p := by
  have hle : width ≤ 64 := hle
  unfold fitting?
  rw [if_neg hpos.ne']
  split_ifs <;> exact ⟨_, rfl⟩

end CWord

section Steps

variable {p : CWord} {s : PackStep} {u : UnpackStep} {f : FixedBits} {bits : BitSet}
  {x i l : Nat} {val : BitVec p.width}

theorem getLsbD_unpositioned (hl : bits.lsb? = some l) (hlt : ∀ i ∈ bits, i < wordSize) :
    bits.unpositioned.mask.getLsbD i = bits.contains (i + l) := by
  rw [BitSet.getLsbD_mask, Bool.eq_iff_iff, Bool.and_eq_true, BitSet.contains_iff,
    BitSet.contains_iff, BitSet.mem_unpositioned, decide_eq_true_iff]
  simp only [hl, Option.some.injEq, exists_eq_left']
  refine ⟨fun h => h.2, fun h => ⟨?_, h⟩⟩
  exact (Nat.le_add_right i l).trans_lt (hlt _ h)

theorem FixedBits.getLsbD_run (hmask : f.mask = bits.mask)
    (hvalue : ∀ i, f.value.getLsbD i = true → i ∈ bits) (hi : i < p.width) :
    (f.run p val).getLsbD i =
      if bits.contains i then f.value.getLsbD i else val.getLsbD i := by
  have hlt : i < 64 := hi.trans_le CWord.width_le
  rw [run, BitVec.getLsbD_or, BitVec.getLsbD_and, BitVec.getLsbD_not, BitVec.getLsbD_setWidth,
    BitVec.getLsbD_setWidth, hmask, BitSet.getLsbD_mask]
  cases hb : bits.contains i with
  | true => simp [hi, hlt]
  | false =>
    have hv : f.value.getLsbD i = false := by
      by_contra hv
      rw [BitSet.contains_iff.2 (hvalue i (by simpa using hv))] at hb
      cases hb
    simp [hi, hv]

theorem PackStep.getLsbD_run (hmask : s.mask = bits.mask)
    (hunpositioned : s.unpositioned = bits.unpositioned.mask) (hl : bits.lsb? = some s.shift)
    (hlt : ∀ i ∈ bits, i < p.width) (hi : i < p.width) :
    (s.run p x val).getLsbD i =
      if bits.contains i then x.testBit (i - s.shift) else val.getLsbD i := by
  have hword : i < 64 := hi.trans_le CWord.width_le
  have hfit : ∀ i ∈ bits, i < wordSize := fun i hi => (hlt i hi).trans_le CWord.width_le
  rw [run, BitVec.getLsbD_or, BitVec.getLsbD_and, BitVec.getLsbD_not, BitVec.getLsbD_setWidth,
    BitVec.getLsbD_shiftLeft, BitVec.getLsbD_ofNat, hmask, BitSet.getLsbD_mask, Nat.testBit_and,
    hunpositioned, BitVec.testBit_toNat, getLsbD_unpositioned hl hfit]
  by_cases hle : s.shift ≤ i
  · have hsub : i - s.shift < p.width := (Nat.sub_le _ _).trans_lt hi
    cases hb : bits.contains i with
    | true => simp [hi, hword, hsub, hb, hle]
    | false => simp [hi, hsub, hb, hle]
  · -- The lowest bit of the field is the one that the shift leads to.
    have hb : bits.contains i = false :=
      BitSet.contains_eq_false fun h => hle ((BitSet.lsb?_eq_some_iff.1 hl).2 i h)
    simp [hi, hb, not_le.1 hle]

theorem UnpackStep.testBit_taken (hmask : u.mask = bits.mask) (hlt : ∀ i ∈ bits, i < p.width) :
    (u.taken p val).testBit i = (val.getLsbD (u.shift + i) && bits.contains (u.shift + i)) := by
  rw [taken, BitVec.testBit_toNat, BitVec.getLsbD_ushiftRight, BitVec.getLsbD_and,
    BitVec.getLsbD_setWidth, hmask, BitSet.getLsbD_mask]
  by_cases hb : u.shift + i ∈ bits
  · have hi := hlt _ hb
    have hword : u.shift + i < 64 := hi.trans_le CWord.width_le
    simp [hi, hword]
  · simp [BitSet.contains_eq_false hb]

end Steps

end RegAtlas.CHeader
