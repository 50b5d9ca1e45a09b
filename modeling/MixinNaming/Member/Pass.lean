import MixinNaming.Handler.Catalogue
import MixinNaming.Member.Classification
import MixinNaming.Member.Overwrite
import MixinNaming.Member.Shadow
import MixinNaming.MixinClass
/-! One member of a mixin: its annotations are classified and the governing one is renamed by the
rules of its kind. -/
namespace MixinNaming.Remapper

/-- A @Unique member exists in the mixin alone, so nothing is looked up for it. -/
def remapUnique (r : Remapper) (site : Site) (node : Annotation) : Edit Annotation :=
  let unknown := node.names.filter fun name => name != "silent"
  .check (r.reportEach "" (unknown.map fun name => .uniqueElement name site.member)) node

/-- The governing annotation of a method. -/
def remapGoverningMethod (r : Remapper) (site : Site) (targets : TargetSet)
    (kind : AnnotationKind) (node : Annotation) : Edit Annotation :=
  match kind with
  | .shadow => r.remapShadow site targets node
  | .unique => r.remapUnique site node
  | .overwrite => r.remapOverwrite site targets node
  | .injector kind =>
    kind.rules.remap r ⟨site.member.owner, site.member.name, site.member.desc, targets⟩ node
  | .final | .mutable => .keep node

/-- The governing annotation of a field; handlers have no meaning there. -/
def remapGoverningField (r : Remapper) (site : Site) (targets : TargetSet)
    (kind : AnnotationKind) (node : Annotation) : Edit Annotation :=
  match kind with
  | .shadow => r.remapShadow site targets node
  | .unique => r.remapUnique site node
  | _ => .keep node

/-- Edits the governing annotation, or does something else if there is none. -/
def remapMain (r : Remapper) (site : Site) (without : Attempt Unit)
    (f : AnnotationKind → Annotation → Edit Annotation) (annotations : List Annotation) :
    Edit (List Annotation) :=
  .given (r.classify site.member annotations) annotations fun
    | none => .check without annotations
    | some main => .atIndex main.index (f main.kind) annotations

def remapMethod (r : Remapper) (mixin : String) (interfaces : List String) (targets : TargetSet)
    (m : Member) : Edit Member :=
  let site : Site := ⟨m.ref mixin, interfaces⟩
  (r.remapMain site (r.settleOverwrite site targets implicitOverwriteLabel)
    (r.remapGoverningMethod site targets) m.annotations).map fun annotations =>
      { m with annotations }

def remapField (r : Remapper) (mixin : String) (targets : TargetSet) (m : Member) : Edit Member :=
  let site : Site := ⟨m.ref mixin, []⟩
  (r.remapMain site (.answer ()) (r.remapGoverningField site targets) m.annotations).map
    fun annotations => { m with annotations }

end MixinNaming.Remapper
