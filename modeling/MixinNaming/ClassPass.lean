import MixinNaming.Declaration
import MixinNaming.Member.Pass
/-! A whole mixin class: its declarations first, then its methods, then its fields. A class without
a declaration is left as it is. -/
namespace MixinNaming.Remapper

def remapMembers (r : Remapper) (targets : TargetSet) (c : MixinClass) : Edit MixinClass :=
  ((Edit.each (r.remapMethod c.name c.interfaces targets) c.methods).map fun methods =>
      { c with methods }).andThen fun c =>
    (Edit.each (r.remapField c.name targets) c.fields).map fun fields => { c with fields }

def remapClass (r : Remapper) (c : MixinClass) : Edit MixinClass :=
  ((Edit.each (Declaration.remap r c.name) c.annotations).map fun annotations =>
      { c with annotations }).andThen fun renamed =>
    if c.annotations.any Declaration.isMixin then
      r.remapMembers (Declaration.targets c.annotations) renamed
    else .keep renamed

end MixinNaming.Remapper
