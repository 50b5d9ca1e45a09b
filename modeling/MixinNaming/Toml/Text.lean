import MixinNaming.Toml.Basic
/-! Texts of TOML documents: basic ones with escapes between double quotes, literal ones between
single quotes, and both over several lines between three quotes. -/
namespace MixinNaming.Toml

def hexDigit? (c : Char) : Option Nat :=
  if '0' ≤ c ∧ c ≤ '9' then some (c.toNat - '0'.toNat)
  else if 'a' ≤ c ∧ c ≤ 'f' then some (c.toNat - 'a'.toNat + 10)
  else if 'A' ≤ c ∧ c ≤ 'F' then some (c.toNat - 'A'.toNat + 10)
  else none

/-- The character with the given hexadecimal number, which surrogates have not. -/
def hexChar? (digits : List Char) : Option Char := do
  let n ← digits.foldlM (fun n c => (hexDigit? c).map (n * 16 + ·)) 0
  if h : n.isValidChar then some ⟨n.toUInt32, by
    have hn : n < 4294967296 := by rcases h with h | h <;> omega
    simp only [UInt32.isValidChar, Nat.toUInt32, UInt32.toNat_ofNat', Nat.mod_eq_of_lt hn]
    exact h⟩ else none

/-- A text of exactly `count` characters and what follows it. -/
def splitExactly (count : Nat) (cs : List Char) : Option (List Char × List Char) :=
  if count ≤ cs.length then some (cs.splitAt count) else none

def readHex (count : Nat) : Reader Char := fun cs => do
  let (digits, rest) ← splitExactly count cs
  return (← hexChar? digits, rest)

/-- What stands after a backslash. -/
def readEscape : Reader Char
  | 'b' :: rest => some ('\x08', rest)
  | 't' :: rest => some ('\t', rest)
  | 'n' :: rest => some ('\n', rest)
  | 'f' :: rest => some ('\x0c', rest)
  | 'r' :: rest => some ('\r', rest)
  | 'e' :: rest => some ('\x1b', rest)
  | '"' :: rest => some ('"', rest)
  | '\\' :: rest => some ('\\', rest)
  | 'x' :: rest => readHex 2 rest
  | 'u' :: rest => readHex 4 rest
  | 'U' :: rest => readHex 8 rest
  | _ => none

def consChar (c : Char) (read : List Char × List Char) : List Char × List Char :=
  (c :: read.1, read.2)

/-- A basic text after its opening quote. -/
def readBasic : (fuel : Nat) → Reader (List Char)
  | 0, _ => none
  | fuel + 1, cs =>
    match cs with
    | [] => none
    | '"' :: rest => some ([], rest)
    | '\\' :: rest =>
      (readEscape rest).bind fun read => (readBasic fuel read.2).map (consChar read.1)
    | c :: rest => if isControl c then none else (readBasic fuel rest).map (consChar c)

/-- A literal text after its opening quote. -/
def readLiteral : Reader (List Char)
  | [] => none
  | '\'' :: rest => some ([], rest)
  | c :: rest => if isControl c then none else (readLiteral rest).map (consChar c)

/-- Blanks and line breaks that a backslash at the end of a line removes. -/
def skipFolded : List Char → List Char
  | '\r' :: '\n' :: rest => skipFolded rest
  | c :: rest => if isBlank c || c = '\n' then skipFolded rest else c :: rest
  | [] => []

/-- What follows a backslash that ends a line. -/
def foldedLine? (cs : List Char) : Option (List Char) :=
  (newline? (skipBlanks cs)).map skipFolded

/-- The quotes at the end of a text over several lines: up to two of them belong to the text. -/
def closing? (quote : Char) (cs : List Char) : Option (List Char × List Char) :=
  let count := (cs.takeWhile (· = quote)).length
  if 3 ≤ count then
    let kept := min (count - 3) 2
    some (List.replicate kept quote, cs.drop (kept + 3))
  else none

/-- A text over several lines after its opening quotes; only a basic one has escapes. Line breaks
stay as they are written. -/
def readLines (quote : Char) (escapes : Bool) : (fuel : Nat) → Reader (List Char)
  | 0, _ => none
  | fuel + 1, cs =>
    match closing? quote cs with
    | some read => some read
    | none =>
      match cs with
      | [] => none
      | '\r' :: '\n' :: rest =>
        (readLines quote escapes fuel rest).map fun read => consChar '\r' (consChar '\n' read)
      | c :: rest =>
        if escapes && c = '\\' then
          match foldedLine? rest with
          | some rest => readLines quote escapes fuel rest
          | none =>
            (readEscape rest).bind fun read =>
              (readLines quote escapes fuel read.2).map (consChar read.1)
        else if isControl c && c ≠ '\n' then none
        else (readLines quote escapes fuel rest).map (consChar c)

/-- A line break right after the opening quotes does not belong to the text. -/
def readBlock (quote : Char) (escapes : Bool) (cs : List Char) : Option (List Char × List Char) :=
  let body := (newline? cs).getD cs
  readLines quote escapes (body.length + 1) body

/-- A text on one line, which a key may be as well. -/
def readQuoted (cs : List Char) : Option (String × List Char) :=
  match cs with
  | '"' :: rest => (readBasic (rest.length + 1) rest).map fun read => (.ofList read.1, read.2)
  | '\'' :: rest => (readLiteral rest).map fun read => (.ofList read.1, read.2)
  | _ => none

def readText (cs : List Char) : Option (String × List Char) :=
  match cs with
  | '"' :: '"' :: '"' :: rest => (readBlock '"' true rest).map fun read => (.ofList read.1, read.2)
  | '\'' :: '\'' :: '\'' :: rest =>
    (readBlock '\'' false rest).map fun read => (.ofList read.1, read.2)
  | cs => readQuoted cs

def isBareKeyChar (c : Char) : Bool :=
  ('a' ≤ c && c ≤ 'z') || ('A' ≤ c && c ≤ 'Z') || ('0' ≤ c && c ≤ '9') || c = '_' || c = '-'

def readSimpleKey (cs : List Char) : Option (String × List Char) :=
  match cs.takeWhile isBareKeyChar with
  | [] => readQuoted cs
  | key => some (.ofList key, cs.dropWhile isBareKeyChar)

/-- Keys with dots between them. -/
def readKey : (fuel : Nat) → Reader (List String)
  | 0, _ => none
  | fuel + 1, cs => do
    let (key, rest) ← readSimpleKey (skipBlanks cs)
    match skipBlanks rest with
    | '.' :: rest =>
      let (more, rest) ← readKey fuel rest
      return (key :: more, rest)
    | rest => return ([key], rest)

end MixinNaming.Toml
