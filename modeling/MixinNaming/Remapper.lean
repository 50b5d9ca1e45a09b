import MixinNaming.Annotation
import MixinNaming.Edit
import MixinNaming.Hierarchy
import MixinNaming.Naming
import MixinNaming.Policy
/-! What a run works with, and the three things it does with it: reporting a gap to the policy and
putting the two kinds of question to the class hierarchy. -/
namespace MixinNaming

structure Remapper where
  naming : Naming
  hierarchy : Hierarchy
  policy : Policy

namespace Remapper

/-- The gap is on record whether the policy passes over it or not. -/
def report (r : Remapper) (location : String) (feature : Feature) : Attempt Unit :=
  let gap : Gap := ⟨location, feature⟩
  ⟨[.gap gap],
    match r.policy.refusal gap with
    | none => .ok ()
    | some f => .error f⟩

theorem report_of_passed {r : Remapper} {location : String} {feature : Feature}
    (h : r.policy.refusal ⟨location, feature⟩ = none) :
    r.report location feature = ⟨[.gap ⟨location, feature⟩], .ok ()⟩ := by
  rw [report, h]

theorem report_of_refused {r : Remapper} {location : String} {feature : Feature} {f : Fault}
    (h : r.policy.refusal ⟨location, feature⟩ = some f) :
    r.report location feature = ⟨[.gap ⟨location, feature⟩], .error f⟩ := by
  rw [report, h]

/-- Where a gap is all that there is to do, the value stays. -/
theorem check_report {α : Type} (r : Remapper) (location : String) (feature : Feature) (a : α) :
    Edit.check (r.report location feature) a =
      ⟨a, [.gap ⟨location, feature⟩], r.policy.refusal ⟨location, feature⟩⟩ := by
  cases h : r.policy.refusal ⟨location, feature⟩ with
  | none =>
    rw [report_of_passed h]
    rfl
  | some f =>
    rw [report_of_refused h]
    rfl

def reportEach (r : Remapper) (location : String) : List Feature → Attempt Unit
  | [] => .answer ()
  | feature :: rest => (r.report location feature).bind fun _ => r.reportEach location rest

/-- Whether the class or anything above it declares the member. -/
def declares (r : Remapper) (c name desc : String) : Attempt Bool :=
  ⟨[.query (.declares c name desc)], .ok (r.hierarchy.declares c name desc)⟩

/-- The members of the class itself that agree with the given parts. -/
def infer (r : Remapper) (c : String) (name desc : Option String) : Attempt (List MemberRef) :=
  ⟨[.query (.infer c name desc)], .ok (r.hierarchy.infer c name desc)⟩

end Remapper

/-- Edits every element of an annotation in order. -/
def Annotation.editElements (f : String → AnnotationValue → Edit AnnotationValue)
    (a : Annotation) : Edit Annotation :=
  (Edit.each (fun e => (f e.1 e.2).map fun v => (e.1, v)) a.elements).map fun elements =>
    { a with elements }

end MixinNaming
