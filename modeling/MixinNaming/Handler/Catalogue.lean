import MixinNaming.Handler.Rule
import MixinNaming.Member.Kind
/-! The rules of the built-in injector annotations. -/
namespace MixinNaming

open RuleSet

/-- What every injector has in common. -/
def injectorBase : RuleSet := empty.withFrequencyBounds.withInjectorMetadata

def InjectorKind.rules : InjectorKind → RuleSet
  | .inject =>
    ((((injectorBase.withHook .requireCallback).withUnchanged ["cancellable", "locals"]).withRule
      "at" .atList).withRule "slice" .sliceList).withMethodTargets .injectListTarget
  | .modifyArg =>
    ((injectorBase.withIndex.withRule "at" .singleAt).withRule "slice"
      .singleSlice).withMethodTargets .listTarget
  | .redirect =>
    ((injectorBase.withRule "at" .singleAt).withRule "slice" .singleSlice).withMethodTargets
      .listTarget
  | .modifyReturnValue =>
    ((injectorBase.withRule "at" .atList).withRule "slice" .sliceList).withMethodTargets
      .listTarget
  | .canonicalOverwrite => (empty.withHook .implicitTarget).withMethodTargets .singleTarget

/-- The rules of an annotation kind, if a table of rules governs it. -/
def AnnotationKind.rules? : AnnotationKind → Option RuleSet
  | .injector kind => some kind.rules
  | _ => none

end MixinNaming
