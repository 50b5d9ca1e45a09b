import MixinNaming.Number.Double
/-! The shortest decimal that reads back as a given number. A number stands for all reals between
the midpoints to its neighbours; of the decimal grids with 1, 2, … digits the first that has a point
among them gives the digits; of two such points the nearer is taken, of two equally near the even
one. -/
namespace MixinNaming

/-- A positive real `numerator / denominator` with the reals that round to it, over one
denominator; the ends belong to the interval if `closed`. -/
structure RoundingInterval where
  low : Nat
  mid : Nat
  high : Nat
  denominator : Nat
  closed : Bool

/-- The digits of a positive decimal, and the exponent of its first digit. -/
structure Decimal where
  digits : List Char
  exponent : Int
  deriving DecidableEq, Repr

/-- `mantissa * 2 ^ exponent` as a fraction. -/
def binaryFraction (mantissa : Nat) (exponent : Int) : Nat × Nat :=
  if 0 ≤ exponent then (mantissa * twoTo exponent.toNat, 1)
  else (mantissa, twoTo (-exponent).toNat)

/-- Below a power of two the neighbour is only half as far away. -/
def Double.interval (d : Double) : RoundingInterval :=
  let subnormal := d.biasedExponent = 0
  let mantissa := if subnormal then d.fraction else twoTo 52 + d.fraction
  let exponent : Int := (if subnormal then 1 else d.biasedExponent) - 1075
  let below := if d.fraction = 0 ∧ 1 < d.biasedExponent then 1 else 2
  let scale := fun n => (binaryFraction n (exponent - 2)).1
  ⟨scale (4 * mantissa - below), scale (4 * mantissa), scale (4 * mantissa + 2),
    (binaryFraction 1 (exponent - 2)).2, mantissa % 2 = 0⟩

/-- The exponent of the first decimal digit of a positive fraction. -/
def firstDigitExponent (numerator denominator : Nat) : Int :=
  if denominator ≤ numerator then ((Nat.toDigits 10 (numerator / denominator)).length : Int) - 1
  else
    match (List.range 400).find? fun j => denominator ≤ numerator * tenTo j with
    | some j => -(j : Int)
    | none => -400

/-- Whether `point * 10 ^ exponent` lies in the interval, and how far from the middle. -/
def RoundingInterval.distance? (i : RoundingInterval) (point : Nat) (exponent : Int) :
    Option Nat :=
  let (up, down) := if 0 ≤ exponent then (tenTo exponent.toNat, 1) else (1, tenTo (-exponent).toNat)
  let place := point * up * i.denominator
  let low := i.low * down
  let high := i.high * down
  let mid := i.mid * down
  let inside := if i.closed then low ≤ place ∧ place ≤ high else low < place ∧ place < high
  if inside then some ((place - mid) + (mid - place)) else none

/-- The nearest point of one decimal grid, if the interval holds one. -/
def RoundingInterval.onGrid? (i : RoundingInterval) (exponent : Int) : Option Nat :=
  let (up, down) := if 0 ≤ exponent then (tenTo exponent.toNat, 1) else (1, tenTo (-exponent).toNat)
  let floor := i.mid * down / (i.denominator * up)
  match i.distance? floor exponent, i.distance? (floor + 1) exponent with
  | some below, some above =>
    let up := above < below ∨ (above = below ∧ floor % 2 = 1)
    some (if up then floor + 1 else floor)
  | some _, none => some floor
  | none, some _ => some (floor + 1)
  | none, none => none

/-- The decimal with the fewest digits in the interval; 17 digits always suffice. -/
def RoundingInterval.shortest (i : RoundingInterval) : Decimal :=
  let first := firstDigitExponent i.mid i.denominator
  let found := (List.range 17).findSome? fun (n : Nat) =>
    (i.onGrid? (first - n)).map fun point => (point, first - n)
  match found with
  | some (point, exponent) =>
    let digits := Nat.toDigits 10 point
    ⟨digits, exponent + (digits.length - 1)⟩
  | none => ⟨['0'], 0⟩

end MixinNaming
