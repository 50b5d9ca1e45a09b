import MixinNaming.Fault
import MixinNaming.Targets
/-! What a run does where the rules leave a choice: whether a gap is passed over, whether the
members of an interface keep their names, and which names an @At value may use for a point. -/
namespace MixinNaming

structure Policy where
  /-- What a gap stops the run with, unless it is passed over. -/
  refusal : Gap → Option Fault
  protects : (interface : String) → TargetSet → Bool
  point? : String → Option InjectionPoint

namespace Policy

def tolerates (p : Policy) (gap : Gap) : Bool := (p.refusal gap).isNone

@[simp] theorem tolerates_eq_true {p : Policy} {gap : Gap} :
    p.tolerates gap = true ↔ p.refusal gap = none :=
  Option.isNone_iff_eq_none

/-- Stops at the first gap. -/
def failFast : Policy := ⟨fun gap => some (.missing gap), fun _ _ => true, InjectionPoint.ofName?⟩

/-- Passes over every gap. -/
def lenient : Policy := ⟨fun _ => none, fun _ _ => true, InjectionPoint.ofName?⟩

/-- The policy with further names for injection points, which come before its own. -/
def withAliases (p : Policy) (aliases : List (String × InjectionPoint)) : Policy :=
  { p with point? := fun value => (aliases.lookup value).or (p.point? value) }

end Policy

end MixinNaming
