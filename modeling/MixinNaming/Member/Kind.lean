import MixinNaming.Vocabulary
/-! The mixin annotations that a method or a field may carry. All but the two markers govern the
member; only some may stand on a field. -/
namespace MixinNaming

/-- Annotations of handlers, whose elements are renamed by a table of rules. -/
inductive InjectorKind where
  | inject | modifyArg | redirect | modifyReturnValue | canonicalOverwrite
  deriving DecidableEq, Repr

inductive AnnotationKind where
  | shadow
  | unique
  | overwrite
  | injector (kind : InjectorKind)
  | final
  | mutable
  deriving DecidableEq, Repr

def InjectorKind.descriptor : InjectorKind → String
  | .inject => Vocabulary.inject
  | .modifyArg => Vocabulary.modifyArg
  | .redirect => Vocabulary.redirect
  | .modifyReturnValue => Vocabulary.modifyReturnValue
  | .canonicalOverwrite => Vocabulary.canonicalOverwrite

namespace AnnotationKind

def all : List AnnotationKind :=
  [.shadow, .unique, .overwrite, .injector .inject, .injector .modifyArg, .injector .redirect,
    .injector .modifyReturnValue, .injector .canonicalOverwrite, .final, .mutable]

def descriptor : AnnotationKind → String
  | .shadow => Vocabulary.shadow
  | .unique => Vocabulary.unique
  | .overwrite => Vocabulary.overwrite
  | .injector kind => kind.descriptor
  | .final => Vocabulary.final
  | .mutable => Vocabulary.mutable

def ofDescriptor? (desc : String) : Option AnnotationKind :=
  all.find? fun kind => kind.descriptor == desc

/-- A marker carries no data and never governs a member. -/
def isMarker : AnnotationKind → Bool
  | .final | .mutable => true
  | _ => false

def isMain (kind : AnnotationKind) : Bool := !kind.isMarker

def appliesToFields : AnnotationKind → Bool
  | .shadow | .unique | .final | .mutable => true
  | _ => false

theorem mem_all (kind : AnnotationKind) : kind ∈ all := by
  cases kind with
  | injector kind => cases kind <;> decide
  | _ => decide

@[simp] theorem ofDescriptor?_descriptor (kind : AnnotationKind) :
    ofDescriptor? kind.descriptor = some kind := by
  cases kind with
  | injector kind => cases kind <;> decide
  | _ => decide

end AnnotationKind

end MixinNaming
