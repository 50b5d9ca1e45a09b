import MixinNaming.Proofs.Effect.Names
import MixinNaming.Proofs.Frame.Members
import MixinNaming.Proofs.Locality.Renames
/-! The annotation that governs a member. Once it is found it is edited in its place. An alias in it
is renamed as all targets that declare it agree, an alias that no target declares stays, and an
alias on which targets disagree stops the run before the name of the member is looked at. -/
namespace MixinNaming

open Annotation (editElements)

def Annotation.SpellsAliases (node : Annotation) : Prop :=
  ∀ e ∈ node.elements, e.1 = "aliases" → ∃ aliases, e.2.strings? = some aliases

namespace Remapper

variable (r : Remapper)

structure AliasBecomes (t : TargetSet) (desc written renamed : String) : Prop where
  agreed : ∀ newName, r.Agreed .declaringTargets t written desc newName → renamed = newName
  undeclared : (∀ c ∈ t.classes, ¬r.hierarchy.Provides written desc c) → renamed = written

structure ElementBecomes (t : TargetSet) (desc : String) (e f : String × AnnotationValue) :
    Prop where
  name : f.1 = e.1
  other : e.1 ≠ "aliases" → f.2 = e.2
  aliases : e.1 = "aliases" → ∃ written renamed, e.2.strings? = some written ∧
    f.2 = e.2.withStrings renamed ∧ List.Forall₂ (r.AliasBecomes t desc) written renamed

structure NodeBecomes (t : TargetSet) (desc : String) (a b : Annotation) : Prop where
  elements : List.Forall₂ (r.ElementBecomes t desc) a.elements b.elements
  desc : b.desc = a.desc

def TornAlias (t : TargetSet) (desc : String) (node : Annotation) : Prop :=
  ∃ e ∈ node.elements, e.1 = "aliases" ∧ ∃ aliases, e.2.strings? = some aliases ∧
    ∃ written ∈ aliases, r.Torn .declaringTargets t written desc

structure EditsAliases (site : Site) (label : String) (t : TargetSet) (node : Annotation)
    (f : String → AnnotationValue → Edit AnnotationValue) : Prop where
  aliases : ∀ v, f "aliases" v = r.remapAliases site label t v
  others : ∀ e ∈ node.elements, e.1 ≠ "aliases" → f e.1 e.2 = .keep e.2

variable {r} {t : TargetSet} {site : Site} {label : String}

theorem remapAlias_plain (site : Site) (label : String) (t : TargetSet) (written : String) :
    (r.remapAlias site label t written).Plain :=
  .given written (nameAcross_plain site label written t .declaringTargets) fun _ => .keep _

theorem remapAlias_fault_eq_none {written : String} :
    (r.remapAlias site label t written).fault = none ↔
      ¬r.Torn .declaringTargets t written site.member.desc := by
  rw [remapAlias, Edit.replace, Edit.given_fault_eq_none]
  constructor
  · rintro ⟨found, hfound, -⟩ htorn
    exact nameAcross_of_torn site label htorn found hfound
  · intro htorn
    obtain ⟨found, hfound⟩ := nameAcross_of_not_torn site label htorn
    exact ⟨found, hfound, rfl⟩

theorem remapAlias_value (site : Site) (label : String) (t : TargetSet) (written : String) :
    r.AliasBecomes t site.member.desc written (r.remapAlias site label t written).value where
  agreed newName hagreed := by
    rw [remapAlias, Edit.replace, Edit.given_value (nameAcross_of_agreed site label hagreed)]
    rfl
  undeclared hnone := by
    rw [remapAlias, Edit.replace, Edit.given_value (nameAcross_of_unvoiced site label hnone)]
    rfl

section List

variable {v : AnnotationValue} {aliases : List String}

theorem remapAliases_plain (site : Site) (label : String) (t : TargetSet) (v : AnnotationValue) :
    (r.remapAliases site label t v).Plain := by
  rw [remapAliases]
  split
  · exact .refuse v "" _
  · exact .map (.each fun written _ => remapAlias_plain site label t written) _

theorem remapAliases_of_strings (hv : v.strings? = some aliases) :
    r.remapAliases site label t v =
      (Edit.each (r.remapAlias site label t) aliases).map v.withStrings := by
  rw [remapAliases, hv]

theorem remapAliases_fault_eq_none (hv : v.strings? = some aliases) :
    (r.remapAliases site label t v).fault = none ↔
      ¬∃ written ∈ aliases, r.Torn .declaringTargets t written site.member.desc := by
  rw [remapAliases_of_strings hv, Edit.map, Edit.each_fault_eq_none]
  simp only [remapAlias_fault_eq_none, not_exists, not_and]

theorem aliasesBecome_of_completed (hv : v.strings? = some aliases)
    (hfault : (r.remapAliases site label t v).fault = none) :
    ∃ renamed, (r.remapAliases site label t v).value = v.withStrings renamed ∧
      List.Forall₂ (r.AliasBecomes t site.member.desc) aliases renamed := by
  rw [remapAliases_of_strings hv] at hfault ⊢
  refine ⟨_, rfl, Edit.forall₂_each_of_completed (fun written _ _ => ?_) hfault⟩
  exact remapAlias_value site label t written

end List

namespace EditsAliases

variable {node : Annotation} {f : String → AnnotationValue → Edit AnnotationValue}

theorem plain (h : r.EditsAliases site label t node f) : (node.editElements f).Plain := by
  refine .map (.each fun e he => .map ?_ _) _
  by_cases hname : e.1 = "aliases"
  · rw [hname, h.aliases]
    exact remapAliases_plain site label t e.2
  · rw [h.others e he hname]
    exact .keep e.2

/-- The edit stops exactly at a torn alias. -/
theorem fault_eq_none (h : r.EditsAliases site label t node f) (hnode : node.SpellsAliases) :
    (node.editElements f).fault = none ↔ ¬r.TornAlias t site.member.desc node := by
  rw [editElements, Edit.map, Edit.each_fault_eq_none]
  simp only [TornAlias, not_exists, not_and]
  refine forall_congr' fun e => forall_congr' fun he => ?_
  by_cases hname : e.1 = "aliases"
  · obtain ⟨aliases, haliases⟩ := hnode e he hname
    rw [Edit.map, hname, h.aliases, remapAliases_fault_eq_none haliases]
    simp [haliases]
  · rw [Edit.map, h.others e he hname]
    simp [Edit.keep, hname]

theorem value (h : r.EditsAliases site label t node f) (hnode : node.SpellsAliases)
    (hfault : (node.editElements f).fault = none) :
    r.NodeBecomes t site.member.desc node (node.editElements f).value := by
  refine ⟨Edit.forall₂_each_of_completed (fun e he hdone => ⟨rfl, ?_, ?_⟩) hfault, rfl⟩
  · intro hname
    rw [Edit.map, h.others e he hname]
    rfl
  · intro hname
    obtain ⟨aliases, haliases⟩ := hnode e he hname
    rw [Edit.map, hname, h.aliases] at hdone ⊢
    obtain ⟨renamed, hvalue, hrenamed⟩ := aliasesBecome_of_completed haliases hdone
    exact ⟨aliases, renamed, haliases, hvalue, hrenamed⟩

/-- What is settled after the aliases is settled unless one of them is torn. -/
theorem settles (h : r.EditsAliases site label t node f) (hnode : node.SpellsAliases)
    (settle : Annotation → Attempt Unit) {run : Edit Annotation}
    (hrun : run = (node.editElements f).andThen fun edited => .check (settle edited) edited) :
    (r.TornAlias t site.member.desc node → run.effect.Refused []) ∧
      (¬r.TornAlias t site.member.desc node →
        run.effect = (settle (node.editElements f).value).effect ∧
        r.NodeBecomes t site.member.desc node run.value) := by
  subst hrun
  refine ⟨fun htorn => ?_, fun htorn => ?_⟩
  · refine h.plain.refused_andThen (fun hfault => ?_) _
    exact (h.fault_eq_none hnode).1 hfault htorn
  · have hfault := (h.fault_eq_none hnode).2 htorn
    refine ⟨?_, ?_⟩
    · rw [h.plain.effect_andThen hfault, Edit.effect_check]
    · rw [Edit.andThen_of_none hfault, Edit.value_check]
      exact h.value hnode hfault

end EditsAliases

section Main

variable {annotations : List Annotation} (site : Site) (without : Attempt Unit)
  (f : AnnotationKind → Annotation → Edit Annotation)

def classifyGaps (r : Remapper) (member : MemberRef) (annotations : List Annotation) : List Gap :=
  Event.gaps (r.classify member annotations).events

theorem classify_silent (member : MemberRef) (annotations : List Annotation) :
    (r.classify member annotations).Silent :=
  (coupled_silent r .empty).classify member 0 none annotations

theorem desc_of_classify {member : MemberRef} {index : Nat} {kind : AnnotationKind}
    {node : Annotation}
    (hmain : (r.classify member annotations).result = .ok (some ⟨index, kind⟩))
    (hnode : annotations[index]? = some node) : node.desc = kind.descriptor := by
  rcases classifyFrom_eq_ok hmain with ⟨hnone, -⟩ | ⟨-, front, a, rest, k, rfl, ha, hfound, -⟩
  · cases hnone
  · cases hfound
    rw [Nat.zero_add, List.getElem?_append_right (Nat.le_refl _), Nat.sub_self] at hnode
    cases hnode
    exact (descriptor_of_governing? ha).symm

theorem remapMain_of_governed {index : Nat} {kind : AnnotationKind} {node : Annotation}
    (hmain : (r.classify site.member annotations).result = .ok (some ⟨index, kind⟩))
    (hnode : annotations[index]? = some node) :
    (r.remapMain site without f annotations).value = annotations.set index (f kind node).value ∧
      (r.remapMain site without f annotations).effect =
        (f kind node).effect.after (r.classifyGaps site.member annotations) := by
  have hedit : Edit.atIndex index (f kind) annotations =
      (f kind node).map (annotations.set index) := by
    rw [Edit.atIndex, hnode]
  constructor
  · rw [remapMain, Edit.given_value hmain]
    exact congrArg Edit.value hedit
  · rw [remapMain, Edit.effect_given (classify_silent site.member annotations) hmain]
    exact congrArg (fun edit : Edit (List Annotation) => edit.effect.after _) hedit

theorem remapMain_of_ungoverned
    (hmain : (r.classify site.member annotations).result = .ok none) :
    (r.remapMain site without f annotations).value = annotations ∧
      (r.remapMain site without f annotations).effect =
        without.effect.after (r.classifyGaps site.member annotations) := by
  constructor
  · rw [remapMain, Edit.given_value hmain]
    exact Edit.value_check without annotations
  · rw [remapMain, Edit.effect_given (classify_silent site.member annotations) hmain,
      Edit.effect_check]
    rfl

end Main

end Remapper

end MixinNaming
