import MixinNaming.Toml.Scalar
import MixinNaming.Toml.Table
import MixinNaming.Toml.Text
/-! Reading a TOML document line by line. Lists and tables in braces may go over several lines, with
line breaks around their equals signs as well, and end with a comma. A list takes two characters for
its brackets and an item at least one, so fuel that starts above the length of a text lasts to its
end. -/
namespace MixinNaming.Toml

/-- How many lists and tables in braces may be open at once, and how many keys with dots between
them may stand before a value. -/
def nestingLimit : Nat := 80

/-- Dotted keys, an equals sign and what follows it, where `skip` says what may stand around the
equals sign. -/
def readAssignee (skip : List Char → Option (List Char)) : Reader (List String) := fun cs => do
  let (path, rest) ← readKey (cs.length + 1) cs
  match ← skip rest with
  | '=' :: rest => if path.length ≤ nestingLimit then return (path, ← skip rest) else none
  | _ => none

/-- The keys of a header; there may be one more of them than before a value. -/
def readHeader : Reader (List String) := fun cs => do
  let (path, rest) ← readKey (cs.length + 1) cs
  if path.length ≤ nestingLimit + 1 then return (path, skipBlanks rest) else none

/-- Goes on after an item of a list: another item, or the closing character. -/
def afterItem (closing : Char) (fuel : Nat) (cs : List Char) : Option (Bool × List Char) := do
  match ← skipTrivia fuel cs with
  | ',' :: rest => return (true, rest)
  | c :: rest => if c = closing then return (false, rest) else none
  | [] => none

mutual

/-- A value, with the number of lists and tables that may still be opened for it. -/
def readValue : (fuel depth : Nat) → Reader Toml
  | 0, _, _ => none
  | fuel + 1, depth, cs =>
    match cs with
    | '[' :: rest => (readItems fuel depth rest).map fun read => (.list read.1, read.2)
    | '\x7b' :: rest =>
      (readPairs fuel depth [] rest).map fun read => (.table (fieldsToToml read.1), read.2)
    | '"' :: _ => (readText cs).map fun read => (.text read.1, read.2)
    | '\'' :: _ => (readText cs).map fun read => (.text read.1, read.2)
    | cs => readScalar cs

def readItems : (fuel depth : Nat) → Reader (List Toml)
  | 0, _, _ | _, 0, _ => none
  | fuel + 1, depth + 1, cs => do
    match ← skipTrivia (fuel + 1) cs with
    | ']' :: rest => return ([], rest)
    | cs => do
      let (v, rest) ← readValue fuel depth cs
      let (more, rest) ← afterItem ']' (fuel + 1) rest
      if more then
        let (items, rest) ← readItems fuel (depth + 1) rest
        return (v :: items, rest)
      else return ([v], rest)

def readPairs : (fuel depth : Nat) → Fields → Reader Fields
  | 0, _, _, _ | _, 0, _, _ => none
  | fuel + 1, depth + 1, fields, cs => do
    match ← skipTrivia (fuel + 1) cs with
    | '\x7d' :: rest => return (fields, rest)
    | cs => do
      let (path, rest) ← readAssignee (skipTrivia (fuel + 1)) cs
      let (v, rest) ← readValue fuel depth rest
      let fields ← assignPath path v fields
      let (more, rest) ← afterItem '\x7d' (fuel + 1) rest
      if more then readPairs fuel (depth + 1) fields rest else return (fields, rest)

end

/-- The document so far and the table that lines go into. -/
structure Document where
  root : Fields
  current : List String

/-- A line whose blanks at the front are skipped. -/
def readLine (d : Document) (cs : List Char) : Option (Document × List Char) := do
  match cs with
  | '[' :: '[' :: rest => do
    let (path, rest) ← readHeader rest
    match rest with
    | ']' :: ']' :: rest => return (⟨← extendSeries path d.root, path⟩, ← endLine rest)
    | _ => none
  | '[' :: rest => do
    let (path, rest) ← readHeader rest
    match rest with
    | ']' :: rest => return (⟨← defineTable path d.root, path⟩, ← endLine rest)
    | _ => none
  | cs => do
    let (path, rest) ← readAssignee (some ∘ skipBlanks) cs
    let (v, rest) ← readValue (rest.length + 1) nestingLimit rest
    return (⟨← descend .passing (assignPath path v) d.current d.root, d.current⟩, ← endLine rest)

/-- Every line takes at least one character, so the length of the text is fuel enough. -/
def readLinesFrom : (fuel : Nat) → Document → List Char → Option Document
  | 0, d, _ => some d
  | fuel + 1, d, cs => do
    match ← skipTrivia (cs.length + 1) cs with
    | [] => some d
    | cs => do
      let (d, rest) ← readLine d (skipBlanks cs)
      readLinesFrom fuel d rest

/-- A byte order mark may stand at the front. -/
def skipMark : List Char → List Char
  | '\ufeff' :: rest => rest
  | cs => cs

def read (text : String) : Option Toml :=
  let cs := skipMark text.toList
  (readLinesFrom (cs.length + 1) ⟨[], []⟩ cs).map fun d => .table (fieldsToToml d.root)

end MixinNaming.Toml
