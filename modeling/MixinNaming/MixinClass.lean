import MixinNaming.Annotation
import MixinNaming.Member
/-! A mixin class as far as its annotations are concerned. Methods and fields have one shape. -/
namespace MixinNaming

structure Member where
  name : String
  desc : String
  annotations : List Annotation
  deriving Inhabited

structure MixinClass where
  name : String
  interfaces : List String
  annotations : List Annotation
  methods : List Member
  fields : List Member
  deriving Inhabited

def Member.ref (m : Member) (owner : String) : MemberRef := ⟨owner, m.name, m.desc⟩

end MixinNaming
