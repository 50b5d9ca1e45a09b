import MixinNaming.Remapper
import MixinNaming.Text.Span
import MixinNaming.Vocabulary
/-! The @Mixin declarations of a class. They name the targets, as class literals or as texts in
either spelling; the target set holds the names as they are written, and the declaration is renamed
once, each name in its own spelling. -/
namespace MixinNaming.Declaration

def isMixin (a : Annotation) : Bool := a.desc == Vocabulary.mixin

/-- The targets that one element names, in the source namespace. -/
def elementTargets (element : String × AnnotationValue) : List String :=
  if element.1 = "value" then
    element.2.items.filterMap fun item => item.type?.map ClassLiteral.internalName
  else if element.1 = "targets" then (element.2.strings?.getD []).map Text.slashed
  else []

def targetNames (annotations : List Annotation) : List String :=
  (annotations.filter isMixin).flatMap fun a => a.elements.flatMap elementTargets

def targets (annotations : List Annotation) : TargetSet := .ofList (targetNames annotations)

def renameLiteral (n : Naming) (mixin : String) (v : AnnotationValue) : Edit AnnotationValue :=
  match v with
  | .type t =>
    match t.reference? with
    | none => .stop v (.illegal "" (.mixinTarget mixin t.descriptor))
    | some name =>
      .keep (match n.class? name with
        | some renamed => .type (.object renamed)
        | none => v)
  | other => .stop other (.illegal "" (.mixinValueKind mixin other.kind))

/-- The new name of a target, with dots if it was written with dots. -/
def renameText (n : Naming) (written : String) : String :=
  let renamed := n.className (Text.slashed written)
  if '.' ∈ written.toList then Text.dotted renamed else renamed

def remapElement (r : Remapper) (mixin : String) (name : String) (v : AnnotationValue) :
    Edit AnnotationValue :=
  if name = "value" then
    (Edit.each (renameLiteral r.naming mixin) v.items).map v.withItems
  else if name = "targets" then
    match v.strings? with
    | none => .stop v (.illegal "" (.mixinTargetNames mixin))
    | some written => .keep (v.withStrings (written.map (renameText r.naming)))
  else if name = "priority" ∨ name = "remap" then .keep v
  else .check (r.report "" (.mixinElement name mixin)) v

/-- One annotation of the class: a declaration is renamed, other core annotations are gaps. -/
def remap (r : Remapper) (mixin : String) (a : Annotation) : Edit Annotation :=
  if isMixin a then a.editElements (remapElement r mixin)
  else if Vocabulary.isClassNamespace a.desc then
    .check (r.report "" (.unknownOnClass mixin a.desc)) a
  else .keep a

end MixinNaming.Declaration
