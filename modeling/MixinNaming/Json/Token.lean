import MixinNaming.Json.Basic
import MixinNaming.Number.Numeral
/-! The tokens of JSON: punctuation, words, numerals and texts. A text is first read as a list of
units, because an escape names a UTF-16 unit and two of them can make one character. -/
namespace MixinNaming.Json

inductive Token where
  | openBrace | closeBrace | openBracket | closeBracket | colon | comma
  | literal (value : Json)
  | text (value : Option String)

/-- A character that stands for itself, or a UTF-16 unit that an escape names. -/
inductive TextUnit where
  | plain (c : Char)
  | escaped (code : Nat)
  deriving DecidableEq, Repr

def hexDigit? (c : Char) : Option Nat :=
  if '0' ≤ c ∧ c ≤ '9' then some (c.toNat - '0'.toNat)
  else if 'a' ≤ c ∧ c ≤ 'f' then some (c.toNat - 'a'.toNat + 10)
  else if 'A' ≤ c ∧ c ≤ 'F' then some (c.toNat - 'A'.toNat + 10)
  else none

def hexNumber? (digits : List Char) : Option Nat :=
  digits.foldl (fun n c => n.bind fun n => (hexDigit? c).map (n * 16 + ·)) (some 0)

def shortEscape? : Char → Option Char
  | '"' => some '"'
  | '\\' => some '\\'
  | '/' => some '/'
  | 'b' => some '\x08'
  | 'f' => some '\x0c'
  | 'n' => some '\n'
  | 'r' => some '\r'
  | 't' => some '\t'
  | _ => none

def consUnit (u : TextUnit) (read : List TextUnit × List Char) : List TextUnit × List Char :=
  (u :: read.1, read.2)

/-- The units up to the closing quote, and what follows it. Control characters have to be
escaped. -/
def readUnits : List Char → Option (List TextUnit × List Char)
  | [] => none
  | '"' :: rest => some ([], rest)
  | '\\' :: 'u' :: a :: b :: c :: d :: rest =>
    (hexNumber? [a, b, c, d]).bind fun code => (readUnits rest).map (consUnit (.escaped code))
  | '\\' :: c :: rest =>
    (shortEscape? c).bind fun c => (readUnits rest).map (consUnit (.plain c))
  | c :: rest =>
    if c = '\\' ∨ c.toNat < 0x20 then none else (readUnits rest).map (consUnit (.plain c))

def isHighSurrogate (code : Nat) : Bool := 0xD800 ≤ code && code < 0xDC00
def isLowSurrogate (code : Nat) : Bool := 0xDC00 ≤ code && code < 0xE000

/-- The characters of a text, unless half a surrogate pair stands in it. -/
def decodeUnits : List TextUnit → Option (List Char)
  | [] => some []
  | .plain c :: rest => (decodeUnits rest).map (c :: ·)
  | .escaped high :: .escaped low :: rest =>
    if isHighSurrogate high && isLowSurrogate low then
      (decodeUnits rest).map
        (.ofNat (0x10000 + (high - 0xD800) * 0x400 + (low - 0xDC00)) :: ·)
    else if isHighSurrogate high || isLowSurrogate high then none
    else (decodeUnits (.escaped low :: rest)).map (.ofNat high :: ·)
  | .escaped code :: rest =>
    if isHighSurrogate code || isLowSurrogate code then none
    else (decodeUnits rest).map (.ofNat code :: ·)

def digitValue (c : Char) : Nat := c.toNat - '0'.toNat

/-- The digits at the front, and what follows them. -/
def spanDigits (cs : List Char) : List Nat × List Char :=
  ((cs.takeWhile Char.isDigit).map digitValue, cs.dropWhile Char.isDigit)

def digitsNumber (digits : List Nat) : Nat := digits.foldl (fun n d => n * 10 + d) 0

/-- The fraction of a numeral: a point needs a digit after it. -/
def readFraction (cs : List Char) : Option (Option (List Nat) × List Char) :=
  match cs with
  | '.' :: rest =>
    let (digits, after) := spanDigits rest
    if digits = [] then none else some (some digits, after)
  | cs => some (none, cs)

def readExponentDigits (negative : Bool) (cs : List Char) : Option (Option Int × List Char) :=
  let (digits, after) := spanDigits cs
  if digits = [] then none
  else
    let size : Int := digitsNumber digits
    some (some (if negative then -size else size), after)

def readExponent (cs : List Char) : Option (Option Int × List Char) :=
  match cs with
  | c :: rest =>
    if c = 'e' ∨ c = 'E' then
      match rest with
      | '+' :: rest => readExponentDigits false rest
      | '-' :: rest => readExponentDigits true rest
      | rest => readExponentDigits false rest
    else some (none, cs)
  | [] => some (none, [])

/-- A numeral without its sign. The whole part is a lone zero or begins with another digit. -/
def readNumeral (negative : Bool) (cs : List Char) : Option (Numeral × List Char) := do
  let (whole, rest) := spanDigits cs
  if whole = [] ∨ (whole.head? = some 0 ∧ whole ≠ [0]) then none
  let (fraction, rest) ← readFraction rest
  let (exponent, rest) ← readExponent rest
  return (⟨negative, whole, fraction, exponent⟩, rest)

def ofNumeral (n : Numeral) : Json :=
  match n.value? with
  | some (.integer value) => .integer value
  | some (.double value) => .double value
  | none => .void

def afterWord (word : String) (cs : List Char) : Option (List Char) :=
  word.toList.isPrefixOf? cs

def isBlank (c : Char) : Bool := c = ' ' || c = '\t' || c = '\n' || c = '\r'

def punctuation? : Char → Option Token
  | '\x7b' => some .openBrace
  | '\x7d' => some .closeBrace
  | '[' => some .openBracket
  | ']' => some .closeBracket
  | ':' => some .colon
  | ',' => some .comma
  | _ => none

def readWord (cs : List Char) : Option (Token × List Char) :=
  match afterWord "null" cs, afterWord "true" cs, afterWord "false" cs with
  | some rest, _, _ => some (.literal .null, rest)
  | _, some rest, _ => some (.literal (.bool true), rest)
  | _, _, some rest => some (.literal (.bool false), rest)
  | none, none, none => none

/-- The token at the front of a text that opens with no blank. -/
def readToken (cs : List Char) : Option (Token × List Char) :=
  match cs with
  | [] => none
  | '"' :: rest =>
    (readUnits rest).map fun read => (.text ((decodeUnits read.1).map .ofList), read.2)
  | '-' :: rest => (readNumeral true rest).map fun read => (.literal (ofNumeral read.1), read.2)
  | c :: rest =>
    if c.isDigit then
      (readNumeral false cs).map fun read => (.literal (ofNumeral read.1), read.2)
    else
      match punctuation? c with
      | some token => some (token, rest)
      | none => readWord cs

/-- The tokens of a text; every token takes at least one character, so the length is fuel enough. -/
def readTokens : (fuel : Nat) → List Char → Option (List Token)
  | _, [] => some []
  | 0, _ => none
  | fuel + 1, c :: rest =>
    if isBlank c then readTokens fuel rest
    else (readToken (c :: rest)).bind fun read => (readTokens fuel read.2).map (read.1 :: ·)

def tokens (text : String) : Option (List Token) :=
  let cs := text.toList
  readTokens cs.length cs

end MixinNaming.Json
