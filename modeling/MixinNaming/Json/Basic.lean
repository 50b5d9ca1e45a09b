import MixinNaming.Number.Double
/-! Values of JSON documents. A literal can be well formed and still denote nothing: a number beyond
the range of doubles or a text with half a surrogate pair is `void`, and so is an object with such a
key. -/
namespace MixinNaming

inductive Json where
  | null
  | bool (value : Bool)
  | integer (value : Int)
  | double (value : Double)
  | string (value : String)
  | array (items : List Json)
  | object (fields : List (String × Json))
  | void

namespace Json

instance : Inhabited Json := ⟨.null⟩

def string? : Json → Option String
  | .string s => some s
  | _ => none

def array? : Json → Option (List Json)
  | .array items => some items
  | _ => none

def object? : Json → Option (List (String × Json))
  | .object fields => some fields
  | _ => none

def strings (values : List String) : Json := .array (values.map .string)

def orNull (encode : α → Json) : Option α → Json
  | some a => encode a
  | none => .null

end Json

end MixinNaming
