import MixinNaming.Number.Shortest
/-! How numbers are written in documents: positional with a decimal point while the exponent of the
first digit is from -5 to 15, otherwise with a signed exponent. -/
namespace MixinNaming

def dropTrailingZeros (digits : List Char) : List Char :=
  match (digits.reverse.dropWhile (· = '0')).reverse with
  | [] => ['0']
  | kept => kept

def Decimal.render (d : Decimal) : List Char :=
  let digits := dropTrailingZeros d.digits
  let count := (digits.length : Int)
  if d.exponent < -5 ∨ 16 ≤ d.exponent then
    let fraction := digits.tail
    digits.take 1 ++ (if fraction = [] then [] else '.' :: fraction) ++
      'e' :: (if d.exponent < 0 then '-' else '+') :: (toString d.exponent.natAbs).toList
  else if d.exponent < 0 then
    ['0', '.'] ++ List.replicate (-d.exponent - 1).toNat '0' ++ digits
  else if count ≤ d.exponent + 1 then
    digits ++ List.replicate (d.exponent + 1 - count).toNat '0' ++ ['.', '0']
  else
    let whole := (d.exponent + 1).toNat
    digits.take whole ++ '.' :: digits.drop whole

def Double.isZero (d : Double) : Bool := d.biasedExponent = 0 && d.fraction = 0

/-- The text of a finite number; the two zeros are told apart. -/
def Double.render (d : Double) : List Char :=
  (if d.negative then ['-'] else []) ++
    (if d.isZero then ['0', '.', '0'] else d.interval.shortest.render)

end MixinNaming
