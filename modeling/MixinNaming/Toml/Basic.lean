/-! Values of TOML documents, as far as settings tell them apart: texts, truth values, lists and
tables. Of a number only that it has a value is kept, and of a date only the kind. A number without
a value harms nobody who does not ask for it, so reading a document lets it pass. -/
namespace MixinNaming

inductive Toml where
  | text (value : String)
  | truth (value : Bool)
  | number (hasValue : Bool)
  | date
  | list (items : List Toml)
  | table (fields : List (String × Toml))

instance : Inhabited Toml := ⟨.table []⟩

namespace Toml

mutual

/-- Whether every number in a value has a value itself. -/
def hasValue : Toml → Bool
  | .number hasValue => hasValue
  | .list items => itemsHaveValue items
  | .table fields => fieldsHaveValue fields
  | _ => true

def itemsHaveValue : List Toml → Bool
  | [] => true
  | item :: rest => item.hasValue && itemsHaveValue rest

def fieldsHaveValue : List (String × Toml) → Bool
  | [] => true
  | (_, v) :: rest => v.hasValue && fieldsHaveValue rest

end

/-- What a reader takes from the front of a text, with the rest of the text. -/
abbrev Reader (α : Type) := List Char → Option (α × List Char)

def isBlank (c : Char) : Bool := c = ' ' || c = '\t'

def skipBlanks (cs : List Char) : List Char := cs.dropWhile isBlank

/-- Control characters other than the tab stand in no text and no comment. -/
def isControl (c : Char) : Bool := (c.toNat < 0x20 && c ≠ '\t') || c.toNat = 0x7F

def newline? : List Char → Option (List Char)
  | '\n' :: rest => some rest
  | '\r' :: '\n' :: rest => some rest
  | _ => none

/-- The rest of a line after a `#`, without the line break. -/
def skipCommentText : List Char → Option (List Char)
  | [] => some []
  | c :: rest =>
    if (newline? (c :: rest)).isSome then some (c :: rest)
    else if isControl c then none
    else skipCommentText rest

def skipComment (cs : List Char) : Option (List Char) :=
  match cs with
  | '#' :: rest => skipCommentText rest
  | cs => some cs

/-- Blanks, comments and line breaks. -/
def skipTrivia : (fuel : Nat) → List Char → Option (List Char)
  | 0, cs => some cs
  | fuel + 1, cs => do
    let cs ← skipComment (skipBlanks cs)
    match newline? cs with
    | some rest => skipTrivia fuel rest
    | none => some cs

/-- The end of a line: blanks, a comment, then a line break or the end of the document. -/
def endLine (cs : List Char) : Option (List Char) := do
  match ← skipComment (skipBlanks cs) with
  | [] => some []
  | cs => newline? cs

end Toml

end MixinNaming
