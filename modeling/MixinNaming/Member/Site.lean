import MixinNaming.Agreement
import MixinNaming.Remapper
/-! Questions that the rules for members share: the name that all targets give a member, the names
of its aliases, and whether an interface forbids a rename. -/
namespace MixinNaming

/-- A member of a mixin, with the interfaces that the mixin implements. -/
structure Site where
  member : MemberRef
  interfaces : List String
  deriving Repr

/-- Which targets have a say: all of them, or those whose hierarchy declares the member. -/
inductive Electorate where
  | everyTarget
  | declaringTargets
  deriving DecidableEq, Repr

namespace Remapper

/-- The name of a member in one target, if that target has a say. -/
def nameIn (r : Remapper) (electorate : Electorate) (name desc target : String) :
    Attempt (Option String) :=
  match electorate with
  | .everyTarget => .answer (some (r.naming.member ⟨target, name, desc⟩))
  | .declaringTargets =>
    (r.declares target name desc).bind fun declared =>
      .answer (if declared then some (r.naming.member ⟨target, name, desc⟩) else none)

/-- The name that the targets agree on for `name` with the descriptor of the site. -/
def nameAcross (r : Remapper) (site : Site) (label name : String) (targets : TargetSet)
    (electorate : Electorate) : Attempt (Option String) :=
  agree (r.nameIn electorate name site.member.desc)
    (fun first second => .illegal "" (.disjointNames site.member label name first second))
    targets.classes

/-- An alias that no target declares stays. -/
def remapAlias (r : Remapper) (site : Site) (label : String) (targets : TargetSet)
    (written : String) : Edit String :=
  .replace (r.nameAcross site label written targets .declaringTargets) written fun renamed =>
    renamed.getD written

def remapAliases (r : Remapper) (site : Site) (label : String) (targets : TargetSet)
    (v : AnnotationValue) : Edit AnnotationValue :=
  match v.strings? with
  | none => .stop v (.illegal "" (.aliasesKind label site.member))
  | some aliases => (Edit.each (r.remapAlias site label targets) aliases).map v.withStrings

/-- Refuses a rename of a method that a protected interface provides. -/
def guardInterfaces (r : Remapper) (site : Site) (label : String) (targets : TargetSet) :
    List String → Attempt Unit
  | [] => .answer ()
  | interface :: rest =>
    if r.policy.protects interface targets then
      (r.declares interface site.member.name site.member.desc).bind fun declared =>
        if declared then .stop (.illegal "" (.protectedInterface site.member label interface))
        else r.guardInterfaces site label targets rest
    else r.guardInterfaces site label targets rest

def decideRename (site : Site) (newName : String) : Attempt Unit :=
  ⟨[.rename ⟨site.member, newName⟩], .ok ()⟩

end Remapper

end MixinNaming
