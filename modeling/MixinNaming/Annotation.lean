import MixinNaming.ClassLiteral
import MixinNaming.Number.Double
/-! Annotation metadata. An annotation keeps its elements in the order of declaration; a name may
stand more than once, and looking it up finds the first. A list position accepts a lone value as a
list of one item. -/
namespace MixinNaming

mutual

inductive AnnotationValue where
  | bool (value : Bool)
  | int (value : Int64)
  | double (value : Double)
  | string (value : String)
  | type (value : ClassLiteral)
  | enum (desc value : String)
  | nested (node : Annotation)
  | array (items : List AnnotationValue)

structure Annotation where
  desc : String
  elements : List (String × AnnotationValue)

end

instance : Inhabited AnnotationValue := ⟨.array []⟩
instance : Inhabited Annotation := ⟨⟨"", []⟩⟩

namespace AnnotationValue

def strings (values : List String) : AnnotationValue := .array (values.map .string)

/-- The name of the kind of value, as diagnostics give it. -/
def kind : AnnotationValue → String
  | .bool _ => "boolean"
  | .int _ => "integer"
  | .double _ => "floating point"
  | .string _ => "string"
  | .type _ => "class"
  | .enum _ _ => "enum"
  | .nested _ => "annotation"
  | .array _ => "array"

def string? : AnnotationValue → Option String
  | .string s => some s
  | _ => none

def type? : AnnotationValue → Option ClassLiteral
  | .type t => some t
  | _ => none

def nested? : AnnotationValue → Option Annotation
  | .nested a => some a
  | _ => none

def array? : AnnotationValue → Option (List AnnotationValue)
  | .array items => some items
  | _ => none

/-- The items of a list position. -/
def items : AnnotationValue → List AnnotationValue
  | .array items => items
  | v => [v]

/-- The value with other items in place of its own. -/
def withItems : AnnotationValue → List AnnotationValue → AnnotationValue
  | .array _, items => .array items
  | _, item :: _ => item
  | v, [] => v

/-- The strings of a list position, if it holds nothing else. -/
def strings? : AnnotationValue → Option (List String)
  | .array items => items.mapM string?
  | v => v.string?.map fun s => [s]

def withStrings (v : AnnotationValue) (values : List String) : AnnotationValue :=
  v.withItems (values.map .string)

@[simp] theorem withItems_items (v : AnnotationValue) : v.withItems v.items = v := by
  cases v <;> rfl

theorem strings?_eq_mapM (v : AnnotationValue) : v.strings? = v.items.mapM string? := by
  cases v <;> rfl

end AnnotationValue

namespace Annotation

def get? (a : Annotation) (name : String) : Option AnnotationValue :=
  (a.elements.find? fun e => e.1 == name).map (·.2)

def contains (a : Annotation) (name : String) : Bool := a.elements.any fun e => e.1 == name

def names (a : Annotation) : List String := a.elements.map (·.1)

/-- Appends an element, whatever elements there are. -/
def add (a : Annotation) (name : String) (value : AnnotationValue) : Annotation :=
  { a with elements := a.elements ++ [(name, value)] }

def setElement (name : String) (value : AnnotationValue) :
    List (String × AnnotationValue) → List (String × AnnotationValue)
  | [] => [(name, value)]
  | e :: rest => if e.1 == name then (e.1, value) :: rest else e :: setElement name value rest

/-- Replaces the first element of that name, or appends one. -/
def set (a : Annotation) (name : String) (value : AnnotationValue) : Annotation :=
  { a with elements := setElement name value a.elements }

end Annotation

end MixinNaming
