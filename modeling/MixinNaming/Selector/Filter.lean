import MixinNaming.Descriptor.Text
import MixinNaming.Vocabulary
/-! Conditions on the descriptors of members that a selector may stand for. An injection handler
takes the leading arguments of its target and then a callback, whose class tells whether the target
returns a value. -/
namespace MixinNaming

/-- Where a handler takes its callback, and whether that callback carries a result. -/
structure CallbackParameter where
  index : Nat
  returnable : Bool
  deriving DecidableEq, Repr

inductive DescriptorFilter where
  | any
  | methodOnly
  | handler (leading : List String) (expectVoid : Bool)
  deriving DecidableEq, Repr

namespace CallbackParameter

/-- Whether an argument type is a callback, and of which kind. -/
def ofArgument? (argument : String) : Option Bool :=
  if argument = "L" ++ Vocabulary.callbackInfo ++ ";" then some false
  else if argument = "L" ++ Vocabulary.callbackInfoReturnable ++ ";" then some true
  else none

def ofArgumentsFrom (index : Nat) : List String → Option CallbackParameter
  | [] => none
  | argument :: rest =>
    match ofArgument? argument with
    | some returnable => some ⟨index, returnable⟩
    | none => ofArgumentsFrom (index + 1) rest

/-- The first callback parameter of a handler. -/
def find (handlerDesc : String) : Except DescriptorError (Option CallbackParameter) :=
  (Descriptor.argumentTypes handlerDesc).map (ofArgumentsFrom 0)

end CallbackParameter

namespace DescriptorFilter

def forHandler (handlerDesc : String) (callback : CallbackParameter) :
    Except DescriptorError DescriptorFilter :=
  (Descriptor.argumentTypes handlerDesc).map fun arguments =>
    .handler (arguments.take callback.index) !callback.returnable

def accepts (filter : DescriptorFilter) (desc : String) : Bool :=
  match filter with
  | .any => true
  | .methodOnly => Descriptor.isMethod desc
  | .handler leading expectVoid =>
    match Descriptor.split desc with
    | .error _ => false
    | .ok (arguments, result) => (result == "V") == expectVoid && leading.isPrefixOf arguments

end DescriptorFilter

end MixinNaming
