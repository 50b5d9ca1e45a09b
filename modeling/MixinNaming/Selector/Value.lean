import MixinNaming.Selector.Desc
import MixinNaming.Selector.Resolution
/-! Annotation values that name members: a selector string or a @Desc, alone or in a list. -/
namespace MixinNaming.Remapper

def remapSelectorValue (r : Remapper) (location : String) (targets : TargetSet)
    (filter : DescriptorFilter) (v : AnnotationValue) : Edit AnnotationValue :=
  match v with
  | .string text =>
    .replace (r.resolveSelector location text (some targets) filter) v .string
  | .nested node => (r.remapDesc location targets .method node).map .nested
  | other => .stop other (.illegal location (.selectorKind other.kind))

/-- Where the item of a selector list stands, as diagnostics say it. -/
def selectorLocation (owner : String) (index : Nat) (v : AnnotationValue) : String :=
  "Error while remapping " ++
    (if v.nested?.isSome then "@Desc selector" else "target selector") ++ " in " ++ owner ++
    ", index " ++ toString index ++ ": "

def remapSelectorList (r : Remapper) (owner : String) (targets : TargetSet)
    (filter : DescriptorFilter) (v : AnnotationValue) : Edit AnnotationValue :=
  (Edit.eachIndexed
    (fun index item =>
      r.remapSelectorValue (selectorLocation owner index item) targets filter item)
    v.items).map v.withItems

end MixinNaming.Remapper
