import MixinNaming.Number.Power
import MixinNaming.Toml.Basic
/-! Numbers as documents spell them, with underscores between digits. A well spelled number need not
have a value: a whole number has to fit 128 bits and any other one a double. -/
namespace MixinNaming.Toml

def digitsValue (base : Nat) (digits : List Char) : Nat :=
  digits.foldl
    (fun n c =>
      n * base +
        (if c.isDigit then c.toNat - '0'.toNat else c.toLower.toNat - 'a'.toNat + 10)) 0

def isHexDigit (c : Char) : Bool :=
  c.isDigit || ('a' ≤ c && c ≤ 'f') || ('A' ≤ c && c ≤ 'F')

def isOctalDigit (c : Char) : Bool := '0' ≤ c && c ≤ '7'

def isBinaryDigit (c : Char) : Bool := c = '0' || c = '1'

/-- Every underscore stands before a digit and after one, or after what precedes the text if
`before` says so. -/
def separates (isDigit : Char → Bool) : (before : Bool) → List Char → Bool
  | _, [] => true
  | before, c :: rest =>
    if c = '_' then before && rest.head?.any isDigit && separates isDigit false rest
    else separates isDigit (isDigit c) rest

def ungrouped (cs : List Char) : List Char := cs.filter (· ≠ '_')

/-- A zero in front of other digits. -/
def isPadded (cs : List Char) : Bool := cs.head? == some '0' && 1 < (ungrouped cs).length

def fits (negative : Bool) (n : Nat) : Bool := if negative then n ≤ twoTo 127 else n < twoTo 128

/-- What follows the mark of a base. Without any digit it has no value. -/
def based? (base : Nat) (isDigit : Char → Bool) (cs : List Char) : Option Bool :=
  let digits := ungrouped cs
  if digits.all isDigit && separates isDigit false cs then
    some (digits ≠ [] && fits false (digitsValue base digits))
  else none

def splitSign : List Char → Option Char × List Char
  | '+' :: rest => (some '+', rest)
  | '-' :: rest => (some '-', rest)
  | cs => (none, cs)

/-- A whole number after its sign. Past the first underscore its spelling may hold anything but a
space, as long as digits of some base stand around the underscores; only decimal digits give it a
value. -/
def whole? (sign : Option Char) (cs : List Char) : Option Bool :=
  let rest := cs.dropWhile Char.isDigit
  let digits := ungrouped cs
  if cs ≠ [] && (rest = [] || rest.head? == some '_') && !isPadded cs && !cs.contains ' ' &&
      separates isHexDigit sign.isSome cs then
    some (digits.all Char.isDigit && fits (sign == some '-') (digitsValue 10 digits))
  else none

def isExponentMark (c : Char) : Bool := c = 'e' || c = 'E'

def isGroupedDigit (c : Char) : Bool := c.isDigit || c = '_'

/-- Digits at the front of a text, at least one, with underscores among them. -/
def readDigits : Reader (List Char) := fun cs =>
  let run := cs.takeWhile isGroupedDigit
  if run.any Char.isDigit then some (run, cs.dropWhile isGroupedDigit) else none

def readFraction : Reader (List Char)
  | '.' :: rest => readDigits rest
  | cs => some ([], cs)

/-- An exponent with its mark; leading zeros may stand in it. -/
def readExponent : Reader Int
  | [] => some (0, [])
  | c :: rest => do
    if isExponentMark c then
      let (sign, rest) := splitSign rest
      let (digits, rest) ← readDigits rest
      let size : Int := digitsValue 10 (ungrouped digits)
      return (if sign = some '-' then -size else size, rest)
    else return (0, c :: rest)

/-- Whether `mantissa * 10 ^ exponent` rounds to a double. -/
def inDoubleRange (mantissa : Nat) (exponent : Int) : Bool :=
  let size : Int := (Nat.toDigits 10 mantissa).length + exponent
  if mantissa = 0 ∨ size < 309 then true
  else if 310 < size then false
  else
    let limit := twoTo 1024 - twoTo 970
    if 0 ≤ exponent then mantissa * tenTo exponent.toNat < limit
    else mantissa < limit * tenTo (-exponent).toNat

/-- A number with a fraction or an exponent after its sign. -/
def fractional? (sign : Option Char) (cs : List Char) : Option Bool := do
  let (whole, rest) ← readDigits cs
  let (fraction, rest) ← readFraction rest
  let (exponent, rest) ← readExponent rest
  if rest = [] && !isPadded whole && separates Char.isDigit sign.isSome cs then
    let digits := ungrouped fraction
    return inDoubleRange (digitsValue 10 (ungrouped whole ++ digits)) (exponent - digits.length)
  else none

/-- Whether a number has a value; `none` stands for what is not spelled as a number. -/
def numeral? (word : List Char) : Option Bool :=
  match word with
  | '0' :: 'x' :: digits => based? 16 isHexDigit digits
  | '0' :: 'o' :: digits => based? 8 isOctalDigit digits
  | '0' :: 'b' :: digits => based? 2 isBinaryDigit digits
  | word =>
    let (sign, cs) := splitSign word
    if cs = "inf".toList ∨ cs = "nan".toList then some true
    else if cs.any fun c => c = '.' || isExponentMark c then fractional? sign cs
    else whole? sign cs

end MixinNaming.Toml
