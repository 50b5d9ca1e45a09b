import MixinNaming.Number.Double
/-! Numbers as documents spell them. A whole number that fits 64 bits is an integer. Any other is
rounded to a double: its leading digits, as many as fit 64 bits, are rounded first and then scaled
by a power of ten, with a second rounding. Beyond the largest double a numeral has no value. -/
namespace MixinNaming

/-- The parts of a numeral; digits are given by their values. -/
structure Numeral where
  negative : Bool
  whole : List Nat
  fraction : Option (List Nat)
  exponent : Option Int
  deriving DecidableEq, Repr

inductive NumeralValue where
  | integer (value : Int)
  | double (value : Double)
  deriving DecidableEq, Repr

def significandLimit : Nat := twoTo 64 - 1

/-- The leading digits of a whole part that fit, and how many were left out. -/
def leadingWhole (significand : Nat) : List Nat → Nat × Nat
  | [] => (significand, 0)
  | d :: rest =>
    if significandLimit < significand * 10 + d then (significand, rest.length + 1)
    else leadingWhole (significand * 10 + d) rest

/-- A significand with the fraction digits that still fit, and how many they are. -/
def leadingFraction (significand : Nat) : List Nat → Nat × Nat
  | [] => (significand, 0)
  | d :: rest =>
    if significandLimit < significand * 10 + d then (significand, 0)
    else
      let more := leadingFraction (significand * 10 + d) rest
      (more.1, more.2 + 1)

def powerOfTen (exponent : Nat) : Float := .ofScientific 1 false exponent

/-- `x * 10 ^ exponent`, if it is within range. -/
def scaleByTen (x : Float) (exponent : Int) : Option Float :=
  if h : exponent.natAbs ≤ 308 then
    if 0 ≤ exponent then
      let y := x * powerOfTen exponent.natAbs
      if y.isInf then none else some y
    else some (x / powerOfTen exponent.natAbs)
  else if x == 0.0 then some x
  else if 0 ≤ exponent then none
  else scaleByTen (x / powerOfTen 308) (exponent + 308)
termination_by exponent.natAbs
decreasing_by omega

def signed (negative : Bool) (x : Float) : Double := .ofFloat (if negative then -x else x)

def Numeral.value? (n : Numeral) : Option NumeralValue :=
  let whole := leadingWhole 0 n.whole
  let fraction := leadingFraction whole.1 (n.fraction.getD [])
  if n.fraction = none ∧ n.exponent = none ∧ whole.2 = 0 then
    if !n.negative then some (.integer whole.1)
    else if whole.1 = 0 ∨ twoTo 63 < whole.1 then
      some (.double (signed true whole.1.toUInt64.toFloat))
    else some (.integer (-(whole.1 : Int)))
  else
    let exponent : Int := whole.2 - fraction.2 + n.exponent.getD 0
    (scaleByTen fraction.1.toUInt64.toFloat exponent).map fun x => .double (signed n.negative x)

end MixinNaming
