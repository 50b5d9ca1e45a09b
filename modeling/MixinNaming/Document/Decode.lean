import MixinNaming.Document.Encode
import MixinNaming.Json.Reader
/-! Reading mixin classes, mapping files and class hierarchies from JSON values. A structure is an
object or the list of its fields in order; unknown fields are ignored, whatever they hold, and no
known field may stand twice. Every container that is read costs one level of depth. -/
namespace MixinNaming.Decode

open Json

/-- How many containers a document may nest. -/
def documentDepth : Nat := 127

def string : Json → Option String := Json.string?

def bool : Json → Option Bool
  | .bool b => some b
  | _ => none

/-- Only a whole number of 64 bits with sign. -/
def int : Json → Option Int64
  | .integer n =>
    if Int64.minValue.toInt ≤ n ∧ n ≤ Int64.maxValue.toInt then some (.ofInt n) else none
  | _ => none

/-- A whole number is rounded to the nearest double. -/
def double : Json → Option Double
  | .double d => some d
  | .integer n =>
    let size := n.natAbs.toUInt64.toFloat
    some (.ofFloat (if n < 0 then -size else size))
  | _ => none

/-- The one value of a known field, if the field is there. -/
def fieldOf (fields : List (String × Json)) (name : String) : Option (Option Json) :=
  match fields.filter fun f => f.1 == name with
  | [] => some none
  | [field] => some (some field.2)
  | _ => none

/-- The values of the known fields in order of declaration. -/
def structureFields (names : List String) : Json → Option (List (Option Json))
  | .object fields => names.mapM (fieldOf fields)
  | .array items =>
    if items.length ≤ names.length then
      some (items.map some ++ List.replicate (names.length - items.length) none)
    else none
  | _ => none

def required {α : Type} (decode : Json → Option α) (field : Option Json) : Option α :=
  field.bind decode

def optional {α : Type} (default : α) (decode : Json → Option α) : Option Json → Option α
  | none => some default
  | some j => decode j

def list {α : Type} (decode : Nat → Json → Option α) : Nat → Json → Option (List α)
  | depth + 1, .array items => items.mapM (decode depth)
  | _, _ => none

def strings : Nat → Json → Option (List String) := list fun _ => string

/-- A later value of a key wins. -/
def table {α : Type} (decode : Nat → Json → Option α) : Nat → Json → Option (Table String α)
  | depth + 1, .object fields =>
    (fields.mapM fun f => (decode depth f.2).map fun v => (f.1, v)).map .ofList
  | _, _ => none

def enumFields (j : Json) : Option (String × String) := do
  let fields ← structureFields ["desc", "value"] j
  match fields with
  | [desc, value] => return (← required string desc, ← required string value)
  | _ => none

mutual

def annotationValue : Nat → Json → Option AnnotationValue
  | depth + 1, .object [(kind, body)] =>
    match kind with
    | "bool" => (bool body).map .bool
    | "int" => (int body).map .int
    | "double" => (double body).map .double
    | "string" => (string body).map .string
    | "type" => (string body).map fun desc => .type ⟨desc⟩
    | "enum" =>
      if depth = 0 then none else (enumFields body).map fun parts => .enum parts.1 parts.2
    | "annotation" => (node depth body).map .nested
    | "array" => (annotationItems depth body).map .array
    | _ => none
  | _, _ => none

def annotationItems : Nat → Json → Option (List AnnotationValue)
  | depth + 1, .array items => items.mapM fun item => annotationValue depth item
  | _, _ => none

def node : Nat → Json → Option Annotation
  | depth + 1, j =>
    match structureFields ["desc", "values"] j with
    | some [desc, values] =>
      (required string desc).bind fun desc =>
        (optional [] (fun j => annotationElements depth j) values).map fun elements =>
          ⟨desc, elements⟩
    | _ => none
  | 0, _ => none

def annotationElements : Nat → Json → Option (List (String × AnnotationValue))
  | depth + 1, .array pairs => pairs.mapM fun pair => annotationElement depth pair
  | _, _ => none

def annotationElement : Nat → Json → Option (String × AnnotationValue)
  | depth + 1, .array [.string name, v] => (annotationValue depth v).map fun v => (name, v)
  | _, _ => none

end

def annotations : Nat → Json → Option (List Annotation) := list node

def member : Nat → Json → Option Member
  | depth + 1, j => do
    match ← structureFields ["name", "desc", "annotations"] j with
    | [name, desc, notes] =>
      return ⟨← required string name, ← required string desc,
        ← optional [] (annotations depth) notes⟩
    | _ => none
  | 0, _ => none

def mixinClass : Nat → Json → Option MixinClass
  | depth + 1, j => do
    match ← structureFields ["name", "interfaces", "annotations", "methods", "fields"] j with
    | [name, interfaces, notes, methods, fields] =>
      return ⟨← required string name, ← optional [] (strings depth) interfaces,
        ← optional [] (annotations depth) notes, ← optional [] (list member depth) methods,
        ← optional [] (list member depth) fields⟩
    | _ => none
  | 0, _ => none

def memberRef : Nat → Json → Option MemberRef
  | _ + 1, j => do
    match ← structureFields ["owner", "name", "desc"] j with
    | [owner, name, desc] =>
      return ⟨← required string owner, ← required string name, ← required string desc⟩
    | _ => none
  | 0, _ => none

def rename : Nat → Json → Option Rename
  | _ + 1, j => do
    match ← structureFields ["owner", "name", "desc", "to"] j with
    | [owner, name, desc, newName] =>
      return ⟨⟨← required string owner, ← required string name, ← required string desc⟩,
        ← required string newName⟩
    | _ => none
  | 0, _ => none

def mappingFile : Nat → Json → Option MappingFile
  | depth + 1, j => do
    match ← structureFields ["classes", "methods", "fields"] j with
    | [classes, methods, fields] =>
      return ⟨← optional .empty (table (fun _ => string) depth) classes,
        ← optional [] (list rename depth) methods, ← optional [] (list rename depth) fields⟩
    | _ => none
  | 0, _ => none

def mappingTable (depth : Nat) (j : Json) : Option MappingTable :=
  (mappingFile depth j).map .ofFile

def memberSignature : Nat → Json → Option MemberSignature
  | _ + 1, j => do
    match ← structureFields ["name", "desc"] j with
    | [name, desc] => return ⟨← required string name, ← required string desc⟩
    | _ => none
  | 0, _ => none

/-- The one field where null stands for nothing. -/
def superclass : Json → Option (Option String)
  | .null => some none
  | j => (string j).map some

def classInfo : Nat → Json → Option ClassInfo
  | depth + 1, j => do
    match ← structureFields ["superclass", "interfaces", "members"] j with
    | [parent, interfaces, members] =>
      return ⟨← optional none superclass parent, ← optional [] (strings depth) interfaces,
        ← optional [] (list memberSignature depth) members⟩
    | _ => none
  | 0, _ => none

def hierarchy (depth : Nat) (j : Json) : Option Hierarchy := (table classInfo depth j).map .mk

/-- A whole document of some kind. -/
def document {α : Type} (decode : Nat → Json → Option α) (text : String) : Option α :=
  (Json.read text).bind (decode documentDepth)

end MixinNaming.Decode
