import MixinNaming.Policy
/-! Settings of a run: what happens at a gap, and which interfaces keep the names of their
members. -/
namespace MixinNaming

inductive MissingFeatures where
  | fail
  | warn
  deriving DecidableEq, Repr

structure InterfaceSettings where
  forbidMemberRenames : Bool
  allow : List String
  deriving DecidableEq, Repr

structure Config where
  missingFeatures : MissingFeatures
  interfaces : InterfaceSettings
  deriving DecidableEq, Repr

namespace MissingFeatures

def word : MissingFeatures → String
  | .fail => "fail"
  | .warn => "warn"

def ofWord? : String → Option MissingFeatures
  | "fail" => some .fail
  | "warn" => some .warn
  | _ => none

end MissingFeatures

namespace Config

def default : Config := ⟨.fail, ⟨true, []⟩⟩

instance : Inhabited Config := ⟨default⟩

def withMissingFeatures (c : Config) (mode : MissingFeatures) : Config :=
  { c with missingFeatures := mode }

/-- Interfaces that are allowed by name are not protected. -/
def policy (c : Config) : Policy where
  refusal gap :=
    match c.missingFeatures with
    | .fail => some (.missing gap)
    | .warn => none
  protects interface _ :=
    c.interfaces.forbidMemberRenames && !c.interfaces.allow.contains interface
  point? := InjectionPoint.ofName?

end Config

end MixinNaming
