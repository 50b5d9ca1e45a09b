import MixinNaming.Proofs.Coupling.ClassPass
import MixinNaming.Proofs.Frame.ToleratedGaps
import MixinNaming.Proofs.Idempotence.Injection
/-! Members of a mixin in a run that renames nothing. Whatever name the targets agree on is the name
that was asked for, so no rename comes up and no interface is asked to allow one. -/
namespace MixinNaming

open Edit (Idempotent Leaves given_fault_eq_none)

theorem Attempt.bind_congr {α β : Type} {x : Attempt α} {f g : α → Attempt β}
    (h : ∀ a, x.result = .ok a → f a = g a) : x.bind f = x.bind g := by
  rw [bind, bind]
  cases hx : x.result with
  | error e => rfl
  | ok a => simp only [h a hx]

/-- Elements that are left alone leave the annotation alone. -/
theorem Annotation.editElements_value {f : String → AnnotationValue → Edit AnnotationValue}
    (hf : ∀ name v, (f name v).fault = none → (f name v).value = v) {a : Annotation}
    (h : (a.editElements f).fault = none) : (a.editElements f).value = a := by
  obtain ⟨desc, elements⟩ := a
  have hsame := Edit.value_each (fun e _ he => Prod.ext rfl (hf e.1 e.2 he)) h
  rw [editElements, Edit.map]
  dsimp only
  rw [hsame]

namespace Remapper

variable {r : Remapper}

section Naming

variable (hn : r.naming = MappingTable.empty.naming) (site : Site) (t : TargetSet)
include hn

theorem nameAcross_unmapped {label name : String} {electorate : Electorate}
    {found : Option String}
    (h : (r.nameAcross site label name t electorate).result = .ok found) :
    found = none ∨ found = some name := by
  obtain ⟨-, hnone | ⟨target, -, hvote⟩⟩ := agree_eq_ok.1 h
  · exact .inl hnone
  · cases electorate with
    | everyTarget =>
      cases hvote
      rw [hn, MappingTable.member_empty]
      exact .inr rfl
    | declaringTargets =>
      cases hvote
      rw [hn, MappingTable.member_empty]
      split
      · exact .inr rfl
      · exact .inl rfl

/-- The name that a shadowed member keeps is its own, lead and all. -/
theorem settleShadow_unmapped (lead : String) :
    let shadowed := (stripLead lead site.member.name).getD site.member.name
    r.settleShadow site t lead =
      (r.nameAcross site "@Shadow" shadowed t .declaringTargets).bind fun found =>
        if found.isSome then .answer ()
        else r.report "" (.shadowedMember site.member shadowed) := by
  intro shadowed
  refine Attempt.bind_congr fun found hfound => ?_
  rcases nameAcross_unmapped hn site t hfound with rfl | rfl
  · rfl
  · have hname : (if (stripLead lead site.member.name).isSome then lead ++ shadowed
        else shadowed) = site.member.name := by
      cases hstripped : stripLead lead site.member.name with
      | none => simp [shadowed, hstripped]
      | some rest =>
        simp only [shadowed, hstripped]
        exact (stripLead_eq_some_iff.1 hstripped).2.symm
    exact if_pos hname

theorem settleOverwrite_unmapped (label : String) : r.settleOverwrite site t label =
    (r.nameAcross site label site.member.name t .everyTarget).bind fun _ => .answer () := by
  refine Attempt.bind_congr fun found hfound => ?_
  rcases nameAcross_unmapped hn site t hfound with rfl | rfl
  · rfl
  · exact if_pos rfl

end Naming

end Remapper

/-- Two remappers that rename nothing settle members alike, whatever interfaces are protected. -/
theorem Paired.remapClass_of_unmapped {C : Congruence} {r s : Remapper}
    (h : ∀ t, Paired C r s t t) (hn : r.naming = MappingTable.empty.naming) (c : MixinClass) :
    C.edits (r.remapClass c) (s.remapClass c) := by
  have hs : s.naming = MappingTable.empty.naming := (h .empty).naming.trans hn
  refine (h _).remapClass_of_settled (fun site lead => ?_) fun site label => ?_
  · rw [Remapper.settleShadow_unmapped hn, Remapper.settleShadow_unmapped hs]
    refine C.bind ((h _).memberName site _ _ _) fun found => ?_
    cases found with
    | none => exact (h .empty).report "" _
    | some name => exact C.answer ()
  · rw [Remapper.settleOverwrite_unmapped hn, Remapper.settleOverwrite_unmapped hs]
    exact C.bind ((h _).memberName site _ _ _) fun _ => C.answer ()

namespace Remapper

section Members

variable {r : Remapper} (site : Site) (t : TargetSet)

section Naming

variable (hn : r.naming = MappingTable.empty.naming) {name : String} {v : AnnotationValue}
include hn

theorem remapAliases_value {label : String}
    (h : (r.remapAliases site label t v).fault = none) :
    (r.remapAliases site label t v).value = v := by
  cases hv : v.strings? with
  | none =>
    rw [remapAliases, hv] at h
    cases h
  | some aliases =>
    rw [remapAliases, hv] at h ⊢
    have hsame : (Edit.each (r.remapAlias site label t) aliases).value = aliases := by
      refine Edit.value_each (fun written _ halias => ?_) h
      obtain ⟨found, hfound, -⟩ := given_fault_eq_none.1 halias
      rw [remapAlias, Edit.replace, Edit.given_value hfound]
      rcases nameAcross_unmapped hn site t hfound with rfl | rfl
      · rfl
      · rfl
    change v.withStrings (Edit.each (r.remapAlias site label t) aliases).value = v
    rw [hsame]
    exact AnnotationValue.withStrings_self hv

theorem remapShadowElement_value (h : (r.remapShadowElement site t name v).fault = none) :
    (r.remapShadowElement site t name v).value = v := by
  unfold remapShadowElement at h ⊢
  by_cases hlead : name = "prefix"
  · simp only [if_pos hlead]
    split
    · rfl
    · rfl
  · simp only [if_neg hlead] at h ⊢
    by_cases haliases : name = "aliases"
    · simp only [if_pos haliases] at h ⊢
      exact remapAliases_value site t hn h
    · simp only [if_neg haliases]
      exact Edit.value_check _ v

theorem remapOverwriteElement_value (h : (r.remapOverwriteElement site t name v).fault = none) :
    (r.remapOverwriteElement site t name v).value = v := by
  unfold remapOverwriteElement at h ⊢
  by_cases haliases : name = "aliases"
  · simp only [if_pos haliases] at h ⊢
    exact remapAliases_value site t hn h
  · simp only [if_neg haliases]
    split
    · rfl
    · exact Edit.value_check _ v

theorem remapShadow_idempotent : Idempotent (r.remapShadow site t) := by
  refine .of_value fun node h => ?_
  obtain ⟨helements, -⟩ := Edit.andThen_fault_eq_none.1 h
  rw [remapShadow, Edit.andThen_of_none helements]
  dsimp only
  rw [Edit.value_check]
  exact Annotation.editElements_value (fun _ _ => remapShadowElement_value site t hn) helements

theorem remapOverwrite_idempotent : Idempotent (r.remapOverwrite site t) := by
  refine .of_value fun node h => ?_
  obtain ⟨helements, -⟩ := Edit.andThen_fault_eq_none.1 h
  rw [remapOverwrite, Edit.andThen_of_none helements]
  dsimp only
  rw [Edit.value_check]
  exact Annotation.editElements_value (fun _ _ => remapOverwriteElement_value site t hn) helements

end Naming

theorem remapUnique_idempotent : Idempotent (r.remapUnique site) :=
  .of_value fun node _ => Edit.value_check _ node

/-- What governs a member is told from the types of its annotations. -/
theorem classifyFrom_congr {member : MemberRef} {before after : List Annotation}
    (h : after.map Annotation.desc = before.map Annotation.desc) (index : Nat)
    (main : Option Governing) :
    r.classifyFrom member index main after = r.classifyFrom member index main before := by
  induction before generalizing after index main with
  | nil => rw [List.map_eq_nil_iff.1 h]
  | cons a rest ih =>
    obtain ⟨b, more, rfl, hdesc, hmore⟩ := List.map_eq_cons_iff.1 h
    rw [classifyFrom, classifyFrom, hdesc]
    simp only [ih hmore]

theorem remapMain_idempotent {without : Attempt Unit}
    {f : AnnotationKind → Annotation → Edit Annotation} (hf : ∀ kind, Idempotent (f kind))
    (hframe : ∀ (kind : AnnotationKind) (node : Annotation), node.desc = kind.descriptor →
      GoverningFrame node (f kind node).value) :
    Idempotent (r.remapMain site without f) := by
  intro annotations h
  have hsite : site.member = ⟨site.member.owner, site.member.name, site.member.desc⟩ := rfl
  have hdescs := (r.remapMain_frame _ hsite without hframe annotations).descs_eq
  have hclassify : r.classify site.member (r.remapMain site without f annotations).value =
      r.classify site.member annotations := classifyFrom_congr hdescs 0 none
  obtain ⟨found, hfound, hmain⟩ := given_fault_eq_none.1 h
  cases found with
  | none =>
    have hvalue : (r.remapMain site without f annotations).value = annotations := by
      rw [remapMain, Edit.given_value hfound]
      exact Edit.value_check without annotations
    rw [hvalue]
    exact ⟨h, hvalue⟩
  | some main =>
    have hvalue : (r.remapMain site without f annotations).value =
        (Edit.atIndex main.index (f main.kind) annotations).value := by
      rw [remapMain, Edit.given_value hfound]
    rw [hvalue] at hclassify ⊢
    refine Leaves.given (b := some main) ?_ ?_ _
    · rw [hclassify]
      exact hfound
    · exact (hf main.kind).atIndex main.index annotations hmain

theorem remapMethod_idempotent (hr : r.Unmapped) (mixin : String) (interfaces : List String) :
    Idempotent (r.remapMethod mixin interfaces t) := by
  refine .part Member.annotations (fun m annotations => { m with annotations }) (fun m => ?_)
    (fun _ _ => rfl) (fun _ _ => rfl) fun _ _ => rfl
  refine remapMain_idempotent _ (fun kind => ?_) fun _ _ => r.remapGoverningMethod_frame _ t
  cases kind with
  | shadow => exact remapShadow_idempotent _ t hr.naming
  | unique => exact remapUnique_idempotent _
  | overwrite => exact remapOverwrite_idempotent _ t hr.naming
  | injector kind => exact RuleSet.remap_idempotent hr kind.rules
  | final => exact .keep
  | mutable => exact .keep

theorem remapField_idempotent (hr : r.Unmapped) (mixin : String) :
    Idempotent (r.remapField mixin t) := by
  refine .part Member.annotations (fun m annotations => { m with annotations }) (fun m => ?_)
    (fun _ _ => rfl) (fun _ _ => rfl) fun _ _ => rfl
  refine remapMain_idempotent _ (fun kind => ?_) fun _ _ => r.remapGoverningField_frame _ t
  cases kind with
  | shadow => exact remapShadow_idempotent _ t hr.naming
  | unique => exact remapUnique_idempotent _
  | _ => exact .keep

/-- A pass that is not stopped has edited every method and every field, and nothing else. -/
theorem remapMembers_of_completed {c : MixinClass} (h : (r.remapMembers t c).fault = none) :
    (Edit.each (r.remapMethod c.name c.interfaces t) c.methods).fault = none ∧
      (Edit.each (r.remapField c.name t) c.fields).fault = none ∧
      (r.remapMembers t c).value = { c with
        methods := (Edit.each (r.remapMethod c.name c.interfaces t) c.methods).value
        fields := (Edit.each (r.remapField c.name t) c.fields).value } := by
  obtain ⟨hmethods, hfields⟩ := Edit.andThen_fault_eq_none.1 h
  refine ⟨hmethods, hfields, ?_⟩
  rw [remapMembers, Edit.andThen_of_none hmethods]
  rfl

theorem remapMembers_idempotent (hr : r.Unmapped) : Idempotent (r.remapMembers t) := by
  intro c h
  obtain ⟨hmethods, hfields, hvalue⟩ := remapMembers_of_completed t h
  have hmethod := (remapMethod_idempotent t hr c.name c.interfaces).each c.methods hmethods
  have hfield := (remapField_idempotent t hr c.name).each c.fields hfields
  rw [hvalue]
  exact .andThen (hmethod.map _) (hfield.map _)

end Members

end Remapper

end MixinNaming
