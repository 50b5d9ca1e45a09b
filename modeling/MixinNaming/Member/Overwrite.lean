import MixinNaming.Member.Site
/-! An overwritten method takes the name that the targets give it, whether they declare it or not.
A method without a main annotation is overwritten implicitly. -/
namespace MixinNaming.Remapper

def overwriteLabel : String := "@Overwrite"
def implicitOverwriteLabel : String := "(implicitly) @Overwrite"

def settleOverwrite (r : Remapper) (site : Site) (targets : TargetSet) (label : String) :
    Attempt Unit :=
  (r.nameAcross site label site.member.name targets .everyTarget).bind fun
    | none => .answer ()
    | some newName =>
      if newName = site.member.name then .answer ()
      else
        (r.guardInterfaces site label targets site.interfaces).bind fun _ =>
          decideRename site newName

def remapOverwriteElement (r : Remapper) (site : Site) (targets : TargetSet) (name : String)
    (v : AnnotationValue) : Edit AnnotationValue :=
  if name = "aliases" then r.remapAliases site overwriteLabel targets v
  else if name = "constraints" then .keep v
  else .check (r.report "" (.overwriteElement name site.member)) v

def remapOverwrite (r : Remapper) (site : Site) (targets : TargetSet) (node : Annotation) :
    Edit Annotation :=
  (node.editElements (r.remapOverwriteElement site targets)).andThen fun node =>
    .check (r.settleOverwrite site targets overwriteLabel) node

end MixinNaming.Remapper
