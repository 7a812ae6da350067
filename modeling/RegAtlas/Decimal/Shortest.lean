namespace RegAtlas.Decimal

structure Ratio where
  num : Nat
  den : Nat
deriving Repr

namespace Ratio

def scale (r : Ratio) (base : Nat) (power : Int) : Ratio :=
  if 0 ≤ power then ⟨r.num * Nat.pow base power.toNat, r.den⟩
  else ⟨r.num, r.den * Nat.pow base (-power).toNat⟩

def le (r s : Ratio) : Bool := r.num * s.den ≤ s.num * r.den

/-- The integer nearest to the fraction. A half goes to the even neighbour. -/
def round (r : Ratio) : Nat :=
  let q := r.num / r.den
  let rest := 2 * (r.num % r.den)
  if rest < r.den || (rest == r.den && q % 2 == 0) then q else q + 1

end Ratio

/-- `mantissa * 2 ^ exponent`, with a mantissa below `2 ^ 53`. -/
structure Double where
  mantissa : Nat
  exponent : Int
deriving Repr

def leastExponent : Int := -1074

def log2 (r : Ratio) : Int :=
  let guess : Int := (r.num.log2 : Int) - r.den.log2
  if (Ratio.mk 1 1).le (r.scale 2 (-guess)) then guess else guess - 1

def nearest (r : Ratio) : Double :=
  let exponent := max (log2 r - 52) leastExponent
  let mantissa := (r.scale 2 (-exponent)).round
  if mantissa = 1 <<< 53 then ⟨1 <<< 52, exponent + 1⟩ else ⟨mantissa, exponent⟩

namespace Double

def ratio (d : Double) : Ratio := (Ratio.mk d.mantissa 1).scale 2 d.exponent

/-- The ends of the interval of numbers that round to the double. They belong to it if the mantissa
is even. -/
def ends (d : Double) : Ratio × Ratio :=
  let below := if d.mantissa = 1 <<< 52 ∧ leastExponent < d.exponent then 1 else 2
  ((Ratio.mk (4 * d.mantissa - below) 4).scale 2 d.exponent,
    (Ratio.mk (4 * d.mantissa + 2) 4).scale 2 d.exponent)

def rounds (d : Double) (r : Ratio) : Bool :=
  let (low, high) := d.ends
  if d.mantissa % 2 = 0 then low.le r && r.le high else !r.le low && !high.le r

end Double

def log10From (r : Ratio) : Nat → Int → Int
  | 0, power => power
  | fuel + 1, power =>
    if (Ratio.mk 1 1).le (r.scale 10 (-(power + 1))) then log10From r fuel (power + 1) else power

def log10 (r : Ratio) : Int := log10From r 700 (-330)

structure Digits where
  value : Nat
  power : Int
deriving Repr

/-- The neighbours of the double among the decimals with this last place that round to it, the
nearer one if both do. -/
def onGrid? (d : Double) (power : Int) : Option Digits :=
  let r := d.ratio.scale 10 (-power)
  let floor := r.num / r.den
  let hit (n : Nat) : Bool := d.rounds ((Ratio.mk n 1).scale 10 power)
  if hit floor && hit (floor + 1) then some ⟨r.round, power⟩
  else if hit floor then some ⟨floor, power⟩
  else if hit (floor + 1) then some ⟨floor + 1, power⟩
  else none

def search (d : Double) : Nat → Int → Digits
  | 0, power => ⟨(d.ratio.scale 10 (-power)).round, power⟩
  | fuel + 1, power => (onGrid? d power).getD (search d fuel (power - 1))

def shortest (r : Ratio) : Digits :=
  let d := nearest r
  search d 16 (log10 d.ratio)

/-- Positional from the fifth place behind the point up to sixteen places before it, and with an
exponent of two digits or more outside. -/
def Digits.text (d : Digits) : String :=
  let all := Nat.toDigits 10 d.value
  let digits := (all.reverse.dropWhile (· == '0')).reverse
  let top : Int := d.power + all.length - 1
  if top < -5 ∨ 15 < top then
    let tail := if digits.length ≤ 1 then [] else '.' :: digits.tail
    let exponent := Nat.toDigits 10 top.natAbs
    let padded := if exponent.length < 2 then '0' :: exponent else exponent
    String.ofList (digits.take 1 ++ tail ++ ['e', if top < 0 then '-' else '+'] ++ padded)
  else if top < 0 then
    String.ofList (['0', '.'] ++ List.replicate (-top - 1).toNat '0' ++ digits)
  else
    let whole := digits.take (top.toNat + 1)
    let part := digits.drop (top.toNat + 1)
    String.ofList (whole ++ List.replicate (top.toNat + 1 - whole.length) '0' ++ ['.'] ++
      if part.isEmpty then ['0'] else part)

def realText (mantissa : Int) (places : Nat) : String :=
  let size := if mantissa = 0 then "0.0"
    else (shortest ⟨mantissa.natAbs, Nat.pow 10 places⟩).text
  if mantissa < 0 then "-" ++ size else size

end RegAtlas.Decimal
