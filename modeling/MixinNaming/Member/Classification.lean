import MixinNaming.Member.Kind
import MixinNaming.Remapper
/-! Which annotation governs a member. All annotations are looked at before any rule runs: unknown
ones in a mixin namespace are gaps and a second governing one is illegal. -/
namespace MixinNaming

/-- The governing annotation: its place among the annotations of the member, and its kind. -/
structure Governing where
  index : Nat
  kind : AnnotationKind
  deriving DecidableEq, Repr

/-- The kind of an annotation that the member may carry. -/
def AnnotationKind.ofMember? (member : MemberRef) (desc : String) : Option AnnotationKind :=
  (ofDescriptor? desc).filter fun kind => member.isMethod || kind.appliesToFields

def Remapper.classifyFrom (r : Remapper) (member : MemberRef) (index : Nat)
    (main : Option Governing) : List Annotation → Attempt (Option Governing)
  | [] => .answer main
  | a :: rest =>
    if !Vocabulary.isMemberNamespace a.desc then r.classifyFrom member (index + 1) main rest
    else
      match AnnotationKind.ofMember? member a.desc with
      | none =>
        (r.report "" (.unknownOnMember member a.desc)).bind fun _ =>
          r.classifyFrom member (index + 1) main rest
      | some kind =>
        if kind.isMarker then r.classifyFrom member (index + 1) main rest
        else
          match main with
          | none => r.classifyFrom member (index + 1) (some ⟨index, kind⟩) rest
          | some first =>
            .stop (.illegal "" (.conflictingAnnotations member first.kind.descriptor a.desc))

def Remapper.classify (r : Remapper) (member : MemberRef) (annotations : List Annotation) :
    Attempt (Option Governing) :=
  r.classifyFrom member 0 none annotations

end MixinNaming
