import MixinNaming.ClassPass
import MixinNaming.Proofs.Coupling.Injection
/-! Coupled walks through members and whole classes. -/
namespace MixinNaming

namespace Attuned

section

variable {C : Congruence} {r s : Remapper} {t u : TargetSet} (h : Attuned C r s t u)
include h

theorem remapAliases (site : Site) (label : String) (v : AnnotationValue) :
    C.edits (r.remapAliases site label t v) (s.remapAliases site label u v) := by
  rw [Remapper.remapAliases, Remapper.remapAliases]
  split
  · exact C.stop v "" _
  · refine C.map _ (C.each (fun written => ?_) _)
    exact C.replace written _ (h.memberName site label written _)

theorem remapShadowElement (site : Site) (name : String) (v : AnnotationValue) :
    C.edits (r.remapShadowElement site t name v) (s.remapShadowElement site u name v) := by
  unfold Remapper.remapShadowElement
  split
  · split
    · exact C.keep _
    · exact C.stop _ "" _
  · split
    · exact h.remapAliases site "@Shadow" v
    · exact C.check v (h.report "" _)

theorem remapOverwriteElement (site : Site) (name : String) (v : AnnotationValue) :
    C.edits (r.remapOverwriteElement site t name v) (s.remapOverwriteElement site u name v) := by
  rw [Remapper.remapOverwriteElement, Remapper.remapOverwriteElement]
  split
  · exact h.remapAliases site _ v
  · split
    · exact C.keep v
    · exact C.check v (h.report "" _)

theorem remapUnique (site : Site) (node : Annotation) :
    C.edits (r.remapUnique site node) (s.remapUnique site node) :=
  C.check node (h.reportEach "" _)

theorem classify (member : MemberRef) (index : Nat) (main : Option Governing)
    (annotations : List Annotation) :
    C.attempts (r.classifyFrom member index main annotations)
      (s.classifyFrom member index main annotations) := by
  induction annotations generalizing index main with
  | nil => exact C.answer main
  | cons a rest ih =>
    rw [Remapper.classifyFrom, Remapper.classifyFrom]
    split
    · exact ih (index + 1) main
    · split
      · exact C.bind (h.report "" _) fun _ => ih (index + 1) main
      · split
        · exact ih (index + 1) main
        · split
          · exact ih (index + 1) _
          · exact C.refuse "" _

theorem remapMain (site : Site) {x y : Attempt Unit}
    {f g : AnnotationKind → Annotation → Edit Annotation} (hx : C.attempts x y)
    (hf : ∀ kind node, C.edits (f kind node) (g kind node)) (annotations : List Annotation) :
    C.edits (r.remapMain site x f annotations) (s.remapMain site y g annotations) := by
  refine C.given annotations (h.classify site.member 0 none annotations) fun found => ?_
  cases found with
  | none => exact C.check annotations hx
  | some main => exact C.atIndex (hf main.kind) main.index annotations

theorem remapDeclaration (mixin : String) (a : Annotation) :
    C.edits (Declaration.remap r mixin a) (Declaration.remap s mixin a) := by
  rw [Declaration.remap, Declaration.remap]
  split
  · refine C.editElements (fun name v => ?_) a
    rw [Declaration.remapElement, Declaration.remapElement]
    rw [h.naming]
    split
    · refine C.map _ (C.each (fun item => ?_) v.items)
      unfold Declaration.renameLiteral
      split
      · split
        · exact C.stop _ "" _
        · exact C.keep _
      · exact C.stop _ "" _
    · split
      · split
        · exact C.stop v "" _
        · exact C.keep _
      · split
        · exact C.keep v
        · exact C.check v (h.report "" _)
  · split
    · exact C.check a (h.report "" _)
    · exact C.keep a

end

section Members

variable {C : Congruence} {r s : Remapper} {t u : TargetSet} (h : Attuned C r s t u)
include h

theorem remapShadow (site : Site) (hshadow : ∀ lead,
    C.attempts (r.settleShadow site t lead) (s.settleShadow site u lead)) (node : Annotation) :
    C.edits (r.remapShadow site t node) (s.remapShadow site u node) :=
  C.andThen (C.editElements (h.remapShadowElement site) node) fun node =>
    C.check node (hshadow (shadowLead node))

theorem remapOverwrite (site : Site) (hoverwrite : ∀ label,
    C.attempts (r.settleOverwrite site t label) (s.settleOverwrite site u label))
    (node : Annotation) :
    C.edits (r.remapOverwrite site t node) (s.remapOverwrite site u node) :=
  C.andThen (C.editElements (h.remapOverwriteElement site) node) fun node =>
    C.check node (hoverwrite Remapper.overwriteLabel)

theorem remapField (mixin : String) (m : Member) (hshadow : ∀ lead,
    C.attempts (r.settleShadow ⟨m.ref mixin, []⟩ t lead)
      (s.settleShadow ⟨m.ref mixin, []⟩ u lead)) :
    C.edits (r.remapField mixin t m) (s.remapField mixin u m) := by
  refine C.map _ (h.remapMain _ (C.answer ()) (fun kind node => ?_) m.annotations)
  cases kind with
  | shadow => exact h.remapShadow _ hshadow node
  | unique => exact h.remapUnique _ node
  | _ => exact C.keep node

end Members

section Deciding

variable {C : Coupling} {r s : Remapper} {t u : TargetSet} (h : Attuned C r s t u) (site : Site)
  (hguard : ∀ label, C.attempts (r.guardInterfaces site label t site.interfaces)
    (s.guardInterfaces site label u site.interfaces))
include h hguard

omit h in
theorem renameShadow (newName : String) :
    C.attempts (r.renameShadow site t newName) (s.renameShadow site u newName) := by
  rw [Remapper.renameShadow, Remapper.renameShadow]
  split
  · exact C.answer ()
  · refine C.bind ?_ fun _ => C.rename site newName
    split
    · exact hguard "@Shadow"
    · exact C.answer ()

theorem settleShadow (lead : String) :
    C.attempts (r.settleShadow site t lead) (s.settleShadow site u lead) := by
  refine C.bind (h.memberName site "@Shadow" _ _) fun found => ?_
  cases found with
  | none => exact h.report "" _
  | some renamed => exact renameShadow site hguard _

theorem settleOverwrite (label : String) :
    C.attempts (r.settleOverwrite site t label) (s.settleOverwrite site u label) := by
  refine C.bind (h.memberName site label _ _) fun found => ?_
  cases found with
  | none => exact C.answer ()
  | some newName =>
    dsimp only
    split
    · exact C.answer ()
    · exact C.bind (hguard label) fun _ => C.rename site newName

end Deciding

end Attuned

namespace Paired

variable {C : Congruence} {r s : Remapper} {t u : TargetSet} (h : Paired C r s t u)
include h

theorem remapMethod (mixin : String) (interfaces : List String) (m : Member)
    (hshadow : ∀ lead, C.attempts (r.settleShadow ⟨m.ref mixin, interfaces⟩ t lead)
      (s.settleShadow ⟨m.ref mixin, interfaces⟩ u lead))
    (hoverwrite : ∀ label, C.attempts (r.settleOverwrite ⟨m.ref mixin, interfaces⟩ t label)
      (s.settleOverwrite ⟨m.ref mixin, interfaces⟩ u label)) :
    C.edits (r.remapMethod mixin interfaces t m) (s.remapMethod mixin interfaces u m) := by
  refine C.map _ (h.remapMain _ (hoverwrite _) (fun kind node => ?_) m.annotations)
  cases kind with
  | shadow => exact h.remapShadow _ hshadow node
  | unique => exact h.remapUnique _ node
  | overwrite => exact h.remapOverwrite _ hoverwrite node
  | injector kind => exact h.ruleSet kind.rules mixin m.name m.desc node
  | final => exact C.keep node
  | mutable => exact C.keep node

variable (hshadow : ∀ site lead,
    C.attempts (r.settleShadow site t lead) (s.settleShadow site u lead))
  (hoverwrite : ∀ site label,
    C.attempts (r.settleOverwrite site t label) (s.settleOverwrite site u label))
include hshadow hoverwrite

/-- Walks that settle their members alike are alike. -/
theorem remapMembers_of_settled (c : MixinClass) :
    C.edits (r.remapMembers t c) (s.remapMembers u c) := by
  refine C.andThen (C.map _ (C.each (fun m => ?_) c.methods)) fun c => ?_
  · exact h.remapMethod c.name c.interfaces m (hshadow _) (hoverwrite _)
  · exact C.map _ (C.each (fun m => h.remapField c.name m (hshadow _)) c.fields)

end Paired

/-- Two remappers that settle members alike for the targets of a class walk alike through it. -/
theorem Paired.remapClass_of_settled {C : Congruence} {r s : Remapper} {c : MixinClass}
    (h : Paired C r s (Declaration.targets c.annotations) (Declaration.targets c.annotations))
    (hshadow : ∀ site lead,
      C.attempts (r.settleShadow site (Declaration.targets c.annotations) lead)
        (s.settleShadow site (Declaration.targets c.annotations) lead))
    (hoverwrite : ∀ site label,
      C.attempts (r.settleOverwrite site (Declaration.targets c.annotations) label)
        (s.settleOverwrite site (Declaration.targets c.annotations) label)) :
    C.edits (r.remapClass c) (s.remapClass c) := by
  refine C.andThen (C.map _ (C.each (h.remapDeclaration c.name) c.annotations)) fun renamed => ?_
  split
  · exact h.remapMembers_of_settled hshadow hoverwrite renamed
  · exact C.keep renamed

namespace Coupled

variable {C : Coupling} {r s : Remapper} {t u : TargetSet} (h : Coupled C r s t u)
include h

theorem remapMembers (c : MixinClass) :
    C.edits (r.remapMembers t c) (s.remapMembers u c) :=
  h.remapMembers_of_settled
    (fun site => h.settleShadow site fun label => h.guard site label site.interfaces)
    (fun site => h.settleOverwrite site fun label => h.guard site label site.interfaces) c

end Coupled

/-- Two remappers that walk alike with the targets of a class walk alike through the class. -/
theorem Coupled.remapClass {C : Coupling} {r s : Remapper} {c : MixinClass}
    (h : Coupled C r s (Declaration.targets c.annotations) (Declaration.targets c.annotations)) :
    C.edits (r.remapClass c) (s.remapClass c) :=
  h.remapClass_of_settled
    (fun site => h.settleShadow site fun label => h.guard site label site.interfaces)
    fun site => h.settleOverwrite site fun label => h.guard site label site.interfaces

section

variable {C : Congruence} {n : Naming} {h : Hierarchy} {p q : Policy}

theorem Congruence.inferCandidates (parts : Selector) (filter : DescriptorFilter)
    (scope : List String) :
    C.attempts (Remapper.inferCandidates ⟨n, h, p⟩ parts filter scope)
      (Remapper.inferCandidates ⟨n, h, q⟩ parts filter scope) := by
  induction scope with
  | nil => exact C.answer []
  | cons c rest ih => exact C.bind (C.ask _ _) fun _ => C.bind ih fun _ => C.answer _

theorem Congruence.guardInterfaces (hprotects : q.protects = p.protects) (site : Site)
    (label : String) (t : TargetSet) (interfaces : List String) :
    C.attempts (Remapper.guardInterfaces ⟨n, h, p⟩ site label t interfaces)
      (Remapper.guardInterfaces ⟨n, h, q⟩ site label t interfaces) := by
  induction interfaces with
  | nil => exact C.answer ()
  | cons interface rest ih =>
    rw [Remapper.guardInterfaces, Remapper.guardInterfaces]
    simp only [hprotects]
    split
    · refine C.bind (C.ask _ _) fun declared => ?_
      split
      · exact C.refuse "" _
      · exact ih
    · exact ih

/-- Two policies that differ in their answers to gaps alone, and in the interfaces they protect,
lead to walks that are paired as soon as these answers are coupled. -/
theorem Paired.of_policies
    (hreport : ∀ location feature, C.attempts (Remapper.report ⟨n, h, p⟩ location feature)
      (Remapper.report ⟨n, h, q⟩ location feature))
    (hpoints : q.point? = p.point?) (t : TargetSet) :
    Paired C ⟨n, h, p⟩ ⟨n, h, q⟩ t t where
  naming := rfl
  points := hpoints
  report := hreport
  selector location text parts filter := by
    refine C.bind (C.inferCandidates parts filter _) fun candidates => ?_
    refine C.bind (C.agree (fun m => ?_) location _ candidates) fun found => ?_
    · exact C.bind (C.ofExcept location (n.canonical m)) fun resolved => C.answer (some resolved)
    · cases found with
      | some resolved => exact C.answer resolved.render
      | none => exact C.bind (hreport location _) fun _ => C.answer text
  descName d location mode := by
    refine C.bind (C.agree (fun owner => C.answer _) location _ _) fun found => ?_
    cases found with
    | some name => exact C.answer name
    | none => exact C.refuse location _
  memberName site label name electorate := by
    refine C.agree (fun target => ?_) "" _ t.classes
    cases electorate with
    | everyTarget => exact C.answer _
    | declaringTargets => exact C.bind (C.ask _ _) fun _ => C.answer _

/-- Two policies that differ in their answers to gaps alone lead to walks that are coupled as soon
as these answers are. -/
theorem Coupled.of_policies
    (hreport : ∀ location feature, C.attempts (Remapper.report ⟨n, h, p⟩ location feature)
      (Remapper.report ⟨n, h, q⟩ location feature))
    (hprotects : q.protects = p.protects) (hpoints : q.point? = p.point?) (t : TargetSet) :
    Coupled C ⟨n, h, p⟩ ⟨n, h, q⟩ t t where
  toPaired := .of_policies hreport hpoints t
  guard site label interfaces := C.guardInterfaces hprotects site label t interfaces

end

end MixinNaming
