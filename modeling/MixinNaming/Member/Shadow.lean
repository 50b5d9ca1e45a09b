import MixinNaming.Member.Site
import MixinNaming.Text.Span
import MixinNaming.Vocabulary
/-! A @Shadow member stands for a member of the targets. Its name may begin with a lead that is not
part of the shadowed name and that a rename keeps. -/
namespace MixinNaming

/-- The name without the lead, if it begins with it and goes on after it. -/
def stripLead (lead name : String) : Option String :=
  match lead.toList.isPrefixOf? name.toList with
  | some (c :: rest) => some (.ofList (c :: rest))
  | _ => none

/-- The lead that the last `prefix` element states. -/
def shadowLead (node : Annotation) : String :=
  let stated := node.elements.filterMap fun e => if e.1 = "prefix" then e.2.string? else none
  stated.getLast?.getD Vocabulary.defaultShadowLead

namespace Remapper

def remapShadowElement (r : Remapper) (site : Site) (targets : TargetSet) (name : String)
    (v : AnnotationValue) : Edit AnnotationValue :=
  if name = "prefix" then
    match v with
    | .string _ => .keep v
    | other => .stop other (.illegal "" (.shadowLeadKind site.member))
  else if name = "aliases" then r.remapAliases site "@Shadow" targets v
  else .check (r.report "" (.shadowElement name site.member)) v

/-- Renames the member once its new name is certain. Only methods can clash with an interface. -/
def renameShadow (r : Remapper) (site : Site) (targets : TargetSet) (newName : String) :
    Attempt Unit :=
  if newName = site.member.name then .answer ()
  else
    (if site.member.isMethod then r.guardInterfaces site "@Shadow" targets site.interfaces
      else .answer ()).bind fun _ => decideRename site newName

def settleShadow (r : Remapper) (site : Site) (targets : TargetSet) (lead : String) :
    Attempt Unit :=
  let stripped := stripLead lead site.member.name
  let shadowed := stripped.getD site.member.name
  (r.nameAcross site "@Shadow" shadowed targets .declaringTargets).bind fun
    | none => r.report "" (.shadowedMember site.member shadowed)
    | some renamed =>
      r.renameShadow site targets (if stripped.isSome then lead ++ renamed else renamed)

def remapShadow (r : Remapper) (site : Site) (targets : TargetSet) (node : Annotation) :
    Edit Annotation :=
  (node.editElements (r.remapShadowElement site targets)).andThen fun node =>
    .check (r.settleShadow site targets (shadowLead node)) node

end Remapper

end MixinNaming
