import MixinNaming.Member
/-! What every class and member is called in the target namespace. A naming is asked for a class by
its internal name and for a member by its owner, name and descriptor, all of the source namespace;
classes without an entry keep their name. -/
namespace MixinNaming

structure Naming where
  class? : String → Option String
  method : MemberRef → String
  field : MemberRef → String

namespace Naming

def className (n : Naming) (c : String) : String := (n.class? c).getD c

/-- The name of a member that its descriptor marks as a method or as a field. -/
def member (n : Naming) (m : MemberRef) : String := if m.isMethod then n.method m else n.field m

/-- A descriptor with every class in it renamed. -/
def signature (n : Naming) (desc : String) : Except DescriptorError String :=
  Descriptor.mapClassNames n.className desc

def methodSignature (n : Naming) (desc : String) : Except DescriptorError String :=
  if Descriptor.isMethod desc then n.signature desc else .error (.notAMethod desc)

def fieldSignature (n : Naming) (desc : String) : Except DescriptorError String :=
  if Descriptor.isMethod desc then .error (.unexpectedChar desc 0 '(') else n.signature desc

end Naming

end MixinNaming
