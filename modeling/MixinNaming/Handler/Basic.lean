import MixinNaming.Selector.Filter
import MixinNaming.Remapper
/-! The handler method that an injector annotation stands on. -/
namespace MixinNaming

structure Handler where
  mixin : String
  name : String
  desc : String
  targets : TargetSet

namespace Handler

def signature (h : Handler) : String := h.name ++ h.desc

/-- The handler as diagnostics name it. -/
def location (h : Handler) : String := "method " ++ h.mixin ++ "." ++ h.signature

/-- Reads something off the descriptor of the handler. -/
def fromDesc {α : Type} (h : Handler) (read : String → Except DescriptorError α) : Attempt α :=
  .ofExcept ((read h.desc).mapError fun e =>
    .illegal ("Malformed handler descriptor of " ++ h.location ++ ": ") (.descriptor e))

/-- What the callback parameter of the handler asks of a target. -/
def callbackFilter (h : Handler) : Attempt DescriptorFilter :=
  (h.fromDesc CallbackParameter.find).bind fun
    | none =>
      .stop (.illegal "" (.handlerWithoutCallback h.location Vocabulary.callbackInfo
        Vocabulary.callbackInfoReturnable))
    | some callback => h.fromDesc fun desc => DescriptorFilter.forHandler desc callback

end Handler

end MixinNaming
