import MixinNaming.Injection.Constant
import MixinNaming.Selector.Resolution
/-! The `args` element of an @At, which every injection point reads in its own way. -/
namespace MixinNaming.InjectionPoint

/-- An INVOKE entry without an equals sign is a selector. -/
def editInvokeEntry (r : Remapper) (location entry : String) : Edit String :=
  if '=' ∈ entry.toList then .keep entry
  else .replace (r.resolveSelector location entry none .any) entry id

def fieldEntries : List String := ["array=get", "array=set", "array=length"]

def editFieldEntry (r : Remapper) (location entry : String) : Edit String :=
  if entry ∈ fieldEntries then .keep entry
  else .check (r.report location (.fieldDiscriminator entry)) entry

def editEntries (p : InjectionPoint) (r : Remapper) (location : String) (entries : List String) :
    Edit (List String) :=
  match p with
  | .head | .return | .tail =>
    if entries = [] then .keep entries
    else .stop entries (.illegal location (.redundantArguments p))
  | .invoke => .each (editInvokeEntry r location) entries
  | .field => .each (editFieldEntry r location) entries
  | .constant => ConstantArguments.edit r.naming location entries

/-- The arguments of a point, which only CONSTANT requires. -/
def remapArguments (p : InjectionPoint) (r : Remapper) (location : String)
    (arguments : Option AnnotationValue) : Edit (Option AnnotationValue) :=
  match arguments with
  | none =>
    if p = .constant then .stop none (.illegal location .constantWithoutArguments) else .keep none
  | some v =>
    match v.strings? with
    | none => .stop (some v) (.illegal location .atArgumentsKind)
    | some entries =>
      (p.editEntries r location entries).map fun edited => some (v.withStrings edited)

end MixinNaming.InjectionPoint
