import MixinNaming.Toml.Numeral
/-! Dates, times of day and both together. Seconds may be left out. -/
namespace MixinNaming.Toml

/-- The number that digits without underscores stand for. -/
def decimal? (cs : List Char) : Option Nat :=
  if cs ≠ [] ∧ cs.all Char.isDigit then some (digitsValue 10 cs) else none

def daysIn (year month : Nat) : Nat :=
  if month = 2 then
    if year % 4 = 0 ∧ (year % 100 ≠ 0 ∨ year % 400 = 0) then 29 else 28
  else if month = 4 ∨ month = 6 ∨ month = 9 ∨ month = 11 then 30
  else 31

def isDate (cs : List Char) : Bool :=
  match cs with
  | [a, b, c, d, '-', e, f, '-', g, h] =>
    match decimal? [a, b, c, d], decimal? [e, f], decimal? [g, h] with
    | some year, some month, some day =>
      1 ≤ month && month ≤ 12 && 1 ≤ day && day ≤ daysIn year month
    | _, _, _ => false
  | _ => false

def isSecond (cs : List Char) : Bool :=
  match cs with
  | [] => true
  | ':' :: a :: b :: rest =>
    (decimal? [a, b]).any (· ≤ 60) &&
      (match rest with
       | [] => true
       | '.' :: fraction => (decimal? fraction).isSome
       | _ => false)
  | _ => false

def isTime (cs : List Char) : Bool :=
  match cs with
  | a :: b :: ':' :: c :: d :: rest =>
    (decimal? [a, b]).any (· < 24) && (decimal? [c, d]).any (· < 60) && isSecond rest
  | _ => false

def isOffset (cs : List Char) : Bool :=
  match cs with
  | ['Z'] | ['z'] => true
  | [sign, a, b, ':', c, d] =>
    (sign = '+' || sign = '-') && (decimal? [a, b]).any (· < 24) &&
      (decimal? [c, d]).any (· < 60)
  | _ => false

def isOffsetMark (c : Char) : Bool := c = 'Z' || c = 'z' || c = '+' || c = '-'

def isTimeWithOffset (cs : List Char) : Bool :=
  let offset := cs.dropWhile fun c => !isOffsetMark c
  isTime (cs.takeWhile fun c => !isOffsetMark c) && (offset = [] || isOffset offset)

def isDateTime (cs : List Char) : Bool :=
  isDate cs || isTime cs ||
    (isDate (cs.take 10) &&
      (match cs.drop 10 with
       | c :: time => (c = 'T' || c = 't' || c = ' ') && isTimeWithOffset time
       | [] => false))

end MixinNaming.Toml
