import MixinNaming.Json.Basic
import MixinNaming.Number.Text
/-! Writing JSON, on one line or with two blanks of indentation a level. Characters outside ASCII
stand as they are; only quotes, backslashes and control characters are escaped. -/
namespace MixinNaming.Json

def hexChar (n : Nat) : Char :=
  if n < 10 then .ofNat ('0'.toNat + n) else .ofNat ('a'.toNat + (n - 10))

def escapeChar (c : Char) : List Char :=
  match c with
  | '"' => ['\\', '"']
  | '\\' => ['\\', '\\']
  | '\n' => ['\\', 'n']
  | '\r' => ['\\', 'r']
  | '\t' => ['\\', 't']
  | '\x08' => ['\\', 'b']
  | '\x0c' => ['\\', 'f']
  | c =>
    if c.toNat < 0x20 then ['\\', 'u', '0', '0', hexChar (c.toNat / 16), hexChar (c.toNat % 16)]
    else [c]

def quote (s : String) : String := .ofList ('"' :: (s.toList.flatMap escapeChar ++ ['"']))

def scalarText : Json → String
  | .null => "null"
  | .bool true => "true"
  | .bool false => "false"
  | .integer n => toString n
  | .double d => .ofList d.render
  | .string s => quote s
  | _ => "null"

def joinTexts (separator : String) (texts : List String) : String :=
  String.intercalate separator texts

mutual

def compact : Json → String
  | .array items => "[" ++ joinTexts "," (compactItems items) ++ "]"
  | .object fields => "\x7b" ++ joinTexts "," (compactFields fields) ++ "\x7d"
  | scalar => scalarText scalar

def compactItems : List Json → List String
  | [] => []
  | item :: rest => compact item :: compactItems rest

def compactFields : List (String × Json) → List String
  | [] => []
  | (key, value) :: rest => (quote key ++ ":" ++ compact value) :: compactFields rest

end

def lineBreak (level : Nat) : String := "\n" ++ .ofList (List.replicate (2 * level) ' ')

/-- A container over several lines; an empty one stays on its line. -/
def block (opening closing : String) (level : Nat) (texts : List String) : String :=
  if texts = [] then opening ++ closing
  else
    opening ++ lineBreak (level + 1) ++ joinTexts ("," ++ lineBreak (level + 1)) texts ++
      lineBreak level ++ closing

mutual

def prettyAt (level : Nat) : Json → String
  | .array items => block "[" "]" level (prettyItems (level + 1) items)
  | .object fields => block "\x7b" "\x7d" level (prettyFields (level + 1) fields)
  | scalar => scalarText scalar

def prettyItems (level : Nat) : List Json → List String
  | [] => []
  | item :: rest => prettyAt level item :: prettyItems level rest

def prettyFields (level : Nat) : List (String × Json) → List String
  | [] => []
  | (key, value) :: rest => (quote key ++ ": " ++ prettyAt level value) :: prettyFields level rest

end

def pretty (j : Json) : String := prettyAt 0 j

end MixinNaming.Json
