/-! The built-in places that an @At can name inside a method body. -/
namespace MixinNaming

inductive InjectionPoint where
  | head | invoke | field | return | tail | constant
  deriving DecidableEq, Repr

namespace InjectionPoint

def all : List InjectionPoint := [.head, .invoke, .field, .return, .tail, .constant]

def shortName : InjectionPoint → String
  | .head => "HEAD"
  | .invoke => "INVOKE"
  | .field => "FIELD"
  | .return => "RETURN"
  | .tail => "TAIL"
  | .constant => "CONSTANT"

def className : InjectionPoint → String
  | .head => "org.spongepowered.asm.mixin.injection.points.MethodHead"
  | .invoke => "org.spongepowered.asm.mixin.injection.points.BeforeInvoke"
  | .field => "org.spongepowered.asm.mixin.injection.points.BeforeFieldAccess"
  | .return => "org.spongepowered.asm.mixin.injection.points.BeforeReturn"
  | .tail => "org.spongepowered.asm.mixin.injection.points.BeforeFinalReturn"
  | .constant => "org.spongepowered.asm.mixin.injection.points.BeforeConstant"

/-- A point by its short name or its class name. -/
def ofName? (name : String) : Option InjectionPoint :=
  all.find? fun p => p.shortName == name || p.className == name

/-- Whether the @Desc of an @At at this point names a field. -/
def matchesFields : InjectionPoint → Bool
  | .field => true
  | _ => false

@[simp] theorem ofName?_shortName (p : InjectionPoint) : ofName? p.shortName = some p := by
  cases p <;> decide

@[simp] theorem ofName?_className (p : InjectionPoint) : ofName? p.className = some p := by
  cases p <;> decide

end InjectionPoint

end MixinNaming
