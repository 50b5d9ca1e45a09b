/-! The annotations and types that a mixin is written with, by descriptor or internal name. -/
namespace MixinNaming.Vocabulary

def mixinNamespace : String := "Lorg/spongepowered/asm/mixin/"
def extrasNamespace : String := "Lcom/llamalad7/mixinextras/injector/"
def micromixinNamespace : String := "Lorg/stianloader/micromixin/annotations/"

def mixin : String := "Lorg/spongepowered/asm/mixin/Mixin;"
def shadow : String := "Lorg/spongepowered/asm/mixin/Shadow;"
def unique : String := "Lorg/spongepowered/asm/mixin/Unique;"
def overwrite : String := "Lorg/spongepowered/asm/mixin/Overwrite;"
def final : String := "Lorg/spongepowered/asm/mixin/Final;"
def mutable : String := "Lorg/spongepowered/asm/mixin/Mutable;"
def inject : String := "Lorg/spongepowered/asm/mixin/injection/Inject;"
def modifyArg : String := "Lorg/spongepowered/asm/mixin/injection/ModifyArg;"
def redirect : String := "Lorg/spongepowered/asm/mixin/injection/Redirect;"
def modifyReturnValue : String := "Lcom/llamalad7/mixinextras/injector/ModifyReturnValue;"
def canonicalOverwrite : String := "Lorg/stianloader/micromixin/annotations/CanonicalOverwrite;"

def atType : String := "Lorg/spongepowered/asm/mixin/injection/At;"
def sliceType : String := "Lorg/spongepowered/asm/mixin/injection/Slice;"
def descType : String := "Lorg/spongepowered/asm/mixin/injection/Desc;"

def callbackInfo : String := "org/spongepowered/asm/mixin/injection/callback/CallbackInfo"
def callbackInfoReturnable : String :=
  "org/spongepowered/asm/mixin/injection/callback/CallbackInfoReturnable"

/-- What a @Shadow member name may begin with unless the annotation says otherwise. -/
def defaultShadowLead : String := "shadow$"

def opensWith (lead s : String) : Bool := lead.toList.isPrefixOf s.toList

/-- Whether an annotation of a class belongs to the core mixin annotations. -/
def isClassNamespace (desc : String) : Bool := opensWith mixinNamespace desc

/-- Whether an annotation of a member has to be accounted for. -/
def isMemberNamespace (desc : String) : Bool :=
  opensWith mixinNamespace desc || opensWith extrasNamespace desc ||
    opensWith micromixinNamespace desc

end MixinNaming.Vocabulary
