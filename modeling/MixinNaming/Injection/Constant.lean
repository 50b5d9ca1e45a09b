import MixinNaming.Edit
import MixinNaming.Naming
import MixinNaming.Text.Span
/-! The arguments of a CONSTANT point: exactly one `key=value` entry among entries that hold no
equals sign. Only the value of `classValue` names a class. -/
namespace MixinNaming.ConstantArguments

def literalKeys : List String :=
  ["nullValue", "intValue", "floatValue", "longValue", "doubleValue", "stringValue"]

/-- The text before and after the first equals sign. -/
def splitEntry (entry : String) : Option (String × String) :=
  (Text.splitOnce '=' entry.toList).map fun parts => (.ofList parts.1, .ofList parts.2)

/-- The name inside a class descriptor, given what stands before its final semicolon. -/
def readDescriptor (value : String) (beforeSemicolon : List Char) : Except Violation String :=
  match beforeSemicolon with
  | 'L' :: c :: rest =>
    if '.' ∈ c :: rest then .error (.constantDots value) else .ok (.ofList (c :: rest))
  | _ => .error (.constantDescriptor value)

/-- The new value of `classValue`. A descriptor of an unmapped class and an empty value stay as they
are written; a bare class name keeps its spelling with dots or with slashes. -/
def renameClassValue (n : Naming) (value : String) : Except Violation (Option String) :=
  let cs := value.toList
  if cs = [] then .ok none
  else if cs.getLast? = some ';' then
    (readDescriptor value cs.dropLast).map fun name =>
      (n.class? name).map fun renamed => "L" ++ renamed ++ ";"
  else
    let renamed := n.className (Text.slashed value)
    .ok (some (if '.' ∈ cs then Text.dotted renamed else renamed))

/-- The entry that replaces `key=value`, if it changes. -/
def renameEntry (n : Naming) (key value : String) : Except Violation (Option String) :=
  if key ∈ literalKeys then .ok none
  else if key ≠ "classValue" then .error (.constantKey key)
  else (renameClassValue n value).map fun renamed => renamed.map ("classValue=" ++ ·)

/-- The entries from some place on; `found` tells whether a pair stands before them. -/
def editFrom (n : Naming) (location : String) (found : Bool) :
    List String → Edit (List String)
  | [] => if found then .keep [] else .stop [] (.illegal location .constantMissing)
  | entry :: rest =>
    match splitEntry entry with
    | none => (editFrom n location found rest).map (entry :: ·)
    | some (key, value) =>
      if found then .stop (entry :: rest) (.illegal location .constantRepeated)
      else
        match renameEntry n key value with
        | .error v => .stop (entry :: rest) (.illegal location v)
        | .ok renamed => (editFrom n location true rest).map (renamed.getD entry :: ·)

def edit (n : Naming) (location : String) (entries : List String) : Edit (List String) :=
  editFrom n location false entries

end MixinNaming.ConstantArguments
