import MixinNaming.Hierarchy
import MixinNaming.Json.Basic
import MixinNaming.MappingTable
import MixinNaming.MixinClass
/-! Mixin classes, mapping files and class hierarchies as JSON values. Every field is written, in
the order in which the structures declare them. -/
namespace MixinNaming

open Json

mutual

/-- An object with one field, whose key tells the kind of value. JSON has no number for infinities
and NaN; null stands for them. -/
def AnnotationValue.toJson : AnnotationValue → Json
  | .bool b => .object [("bool", .bool b)]
  | .int n => .object [("int", .integer n.toInt)]
  | .double d => .object [("double", if d.IsFinite then .double d else .null)]
  | .string s => .object [("string", .string s)]
  | .type t => .object [("type", .string t.descriptor)]
  | .enum desc value =>
    .object [("enum", .object [("desc", .string desc), ("value", .string value)])]
  | .nested a => .object [("annotation", a.toJson)]
  | .array items => .object [("array", .array (itemsToJson items))]

def itemsToJson : List AnnotationValue → List Json
  | [] => []
  | v :: rest => v.toJson :: itemsToJson rest

def Annotation.toJson : Annotation → Json
  | ⟨desc, elements⟩ =>
    .object [("desc", .string desc), ("values", .array (elementsToJson elements))]

/-- Elements are written as pairs, since a name may stand more than once. -/
def elementsToJson : List (String × AnnotationValue) → List Json
  | [] => []
  | (name, v) :: rest => .array [.string name, v.toJson] :: elementsToJson rest

end

def Member.toJson (m : Member) : Json :=
  .object [("name", .string m.name), ("desc", .string m.desc),
    ("annotations", .array (m.annotations.map Annotation.toJson))]

def MixinClass.toJson (c : MixinClass) : Json :=
  .object [("name", .string c.name), ("interfaces", strings c.interfaces),
    ("annotations", .array (c.annotations.map Annotation.toJson)),
    ("methods", .array (c.methods.map Member.toJson)),
    ("fields", .array (c.fields.map Member.toJson))]

def MemberRef.toJson (m : MemberRef) : Json :=
  .object [("owner", .string m.owner), ("name", .string m.name), ("desc", .string m.desc)]

def Rename.toJson (r : Rename) : Json :=
  .object [("owner", .string r.member.owner), ("name", .string r.member.name),
    ("desc", .string r.member.desc), ("to", .string r.newName)]

def MappingFile.toJson (f : MappingFile) : Json :=
  .object [("classes", .object (f.classes.entries.map fun e => (e.1, .string e.2))),
    ("methods", .array (f.methods.map Rename.toJson)),
    ("fields", .array (f.fields.map Rename.toJson))]

def MappingTable.toJson (t : MappingTable) : Json := t.toFile.toJson

def MemberSignature.toJson (m : MemberSignature) : Json :=
  .object [("name", .string m.name), ("desc", .string m.desc)]

def ClassInfo.toJson (i : ClassInfo) : Json :=
  .object [("superclass", orNull .string i.superclass), ("interfaces", strings i.interfaces),
    ("members", .array (i.members.map MemberSignature.toJson))]

def Hierarchy.toJson (h : Hierarchy) : Json :=
  .object (h.classes.entries.map fun e => (e.1, e.2.toJson))

end MixinNaming
