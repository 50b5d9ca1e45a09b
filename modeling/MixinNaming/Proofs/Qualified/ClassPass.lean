import MixinNaming.Proofs.Frame.Members
import MixinNaming.Proofs.Qualified.Injection
/-! A run over a mixin class that tolerates no gap and is not stopped leaves no selector that names
less than one member. -/
namespace MixinNaming

open Edit

/-- What the targets of a handler are looked up with. Only an injection reads it off the handler. -/
def InjectorKind.LooksUp (kind : InjectorKind) (h : Handler) (filter : DescriptorFilter) : Prop :=
  if kind = .inject then h.callbackFilter.result = .ok filter else filter = .methodOnly

structure ElementSettled (r : Remapper) (h : Handler) (kind : InjectorKind) (name : String)
    (v w : AnnotationValue) : Prop where
  selectors : name = "method" ∨ name = "target" → ∃ filter, kind.LooksUp h filter ∧
    List.Forall₂ (SelectorSettled r h.targets filter) v.items w.items
  points : name = "at" → List.Forall₂ (AnnotationValue.Nested (AtSettled r)) v.items w.items
  slices : name = "slice" →
    List.Forall₂ (AnnotationValue.Nested (SliceSettled r)) v.items w.items

/-- A handler annotation before and after. It may have been given a @Desc for its target first. -/
def HandlerSettled (r : Remapper) (h : Handler) (kind : InjectorKind) (a b : Annotation) : Prop :=
  ∃ stated : Annotation, (stated = a ∨ ∃ d, stated = a.add "target" (.nested d)) ∧
    List.Forall₂ (fun e f => f.1 = e.1 ∧ ElementSettled r h kind e.1 e.2 f.2) stated.elements
      b.elements

structure MethodSettled (r : Remapper) (mixin : String) (t : TargetSet) (m n : Member) : Prop where
  member : n.ref mixin = m.ref mixin
  descs : n.annotations.map Annotation.desc = m.annotations.map Annotation.desc
  handlers : List.Forall₂ (fun a b => ∀ kind,
    governing? (m.ref mixin) a.desc = some (.injector kind) →
      HandlerSettled r ⟨mixin, m.name, m.desc, t⟩ kind a b) m.annotations n.annotations

theorem ElementSettled.of_rule {r : Remapper} {h : Handler} {kind : InjectorKind} {name : String}
    {v w : AnnotationValue} {rule : ElementRule} (hrule : kind.rules.rule? name = some rule)
    (hsettled : rule.Settled r h v w) : ElementSettled r h kind name v w := by
  refine ⟨fun hname => ?_, ?_, ?_⟩
  · rcases hname with rfl | rfl
    all_goals
      cases kind with
      | inject =>
        cases hrule
        exact hsettled
      | _ =>
        cases hrule
        exact ⟨.methodOnly, rfl, hsettled⟩
  · rintro rfl
    cases kind <;> cases hrule <;> exact hsettled
  · rintro rfl
    cases kind <;> cases hrule <;> exact hsettled

namespace RuleSet

variable {r : Remapper} {h : Handler}

theorem remapElement_settled (hr : r.Strict) (s : RuleSet) {desc name : String}
    {v : AnnotationValue} (hv : (s.remapElement r h desc name v).fault = none) :
    ∃ rule, s.rule? name = some rule ∧
      rule.Settled r h v (s.remapElement r h desc name v).value := by
  rw [remapElement] at hv ⊢
  cases hrule : s.rule? name with
  | none =>
    simp only [hrule] at hv
    obtain ⟨_, hreport, -⟩ := given_fault_eq_none.1 hv
    exact absurd hreport (Remapper.report_ne_ok hr _ _)
  | some rule =>
    simp only [hrule] at hv
    exact ⟨rule, rfl, rule.remap_settled hr hv⟩

theorem remap_settled (hr : r.Strict) (kind : InjectorKind) {node : Annotation}
    (hnode : (kind.rules.remap r h node).fault = none) :
    HandlerSettled r h kind node (kind.rules.remap r h node).value := by
  rw [remap] at hnode ⊢
  obtain ⟨hhooks, helements⟩ := andThen_fault_eq_none.1 hnode
  rw [andThen_of_none hhooks]
  have hstated := applyHooks_value h kind.rules.hooks node
  refine ⟨_, hstated.imp_right fun hadded => ?_, elements_settled (fun name v hv => ?_) helements⟩
  · obtain ⟨-, -, -, d, hd⟩ := hadded
    exact ⟨d, hd⟩
  · obtain ⟨rule, hrule, hsettled⟩ := remapElement_settled hr kind.rules hv
    exact .of_rule hrule hsettled

end RuleSet

namespace Remapper

variable {r : Remapper}

/-- The annotations of a member before and after: the one that governs it has been edited, and
nothing has stopped its edit. -/
theorem remapMain_settled {R : AnnotationKind → Annotation → Annotation → Prop} {site : Site}
    {without : Attempt Unit} {f : AnnotationKind → Annotation → Edit Annotation}
    {annotations : List Annotation}
    (hf : ∀ kind a, (f kind a).fault = none → R kind a (f kind a).value)
    (h : (r.remapMain site without f annotations).fault = none) :
    List.Forall₂ (fun a b => ∀ kind, governing? site.member a.desc = some kind → R kind a b)
      annotations (r.remapMain site without f annotations).value := by
  have hsame : ∀ others : List Annotation, (∀ x ∈ others, governing? site.member x.desc = none) →
      List.Forall₂ (fun a b : Annotation => ∀ kind, governing? site.member a.desc = some kind →
        R kind a b) others others := by
    intro others hothers
    refine List.forall₂_same.2 fun x hx kind hkind => ?_
    cases (hothers x hx).symm.trans hkind
  rw [remapMain] at h ⊢
  obtain ⟨found, hfound, h⟩ := given_fault_eq_none.1 h
  rw [given_value hfound]
  rcases classifyFrom_eq_ok hfound with ⟨rfl, hnone⟩ |
    ⟨-, before, a, after, kind, rfl, ha, rfl, hothers⟩
  · dsimp only
    rw [value_check]
    exact hsame annotations hnone
  · dsimp only at h ⊢
    rw [Nat.zero_add, atIndex_append] at h ⊢
    have hbefore := hsame before fun x hx => hothers x (List.mem_append_left after hx)
    have hafter := hsame after fun x hx => hothers x (List.mem_append_right before hx)
    refine List.rel_append hbefore (.cons (fun kind' hkind => ?_) hafter)
    cases ha.symm.trans hkind
    exact hf kind a h

theorem remapMethod_settled (hr : r.Strict) {mixin : String} {interfaces : List String}
    {t : TargetSet} {m : Member} (h : (r.remapMethod mixin interfaces t m).fault = none) :
    MethodSettled r mixin t m (r.remapMethod mixin interfaces t m).value := by
  have hframe := r.remapMethod_frame mixin interfaces t m
  have hmain := remapMain_settled (R := fun kind a b => ∀ injector, kind = .injector injector →
    HandlerSettled r ⟨mixin, m.name, m.desc, t⟩ injector a b) (fun kind a ha => ?_) h
  · refine ⟨rfl, hframe.descs_eq, ?_⟩
    exact hmain.imp fun a b hab injector hinjector => hab _ hinjector injector rfl
  · rintro injector rfl
    exact RuleSet.remap_settled hr injector ha

theorem remapClass_settled (hr : r.Strict) {c : MixinClass}
    (hmixin : c.annotations.any Declaration.isMixin = true) (h : (r.remapClass c).fault = none) :
    List.Forall₂ (MethodSettled r c.name (Declaration.targets c.annotations)) c.methods
      (r.remapClass c).value.methods := by
  obtain ⟨hdeclarations, hmembers⟩ := andThen_fault_eq_none.1 h
  rw [if_pos hmixin] at hmembers
  obtain ⟨hmethods, hfields⟩ := andThen_fault_eq_none.1 hmembers
  have hsettled : List.Forall₂ (MethodSettled r c.name (Declaration.targets c.annotations))
      c.methods _ :=
    forall₂_each_of_completed (fun m _ => remapMethod_settled hr) hmethods
  rw [remapClass, andThen_of_none hdeclarations]
  dsimp only
  rw [if_pos hmixin, remapMembers, andThen_of_none hmethods]
  exact hsettled

end Remapper

/-- A run over a mixin class that meets no gap and no fault has given every selector of the handler
annotations its full name in the target namespace: those of their targets, those of the points and
slices that they lead to, and those among the arguments of INVOKE points. -/
theorem unforgiving_run_settles_selectors {table : MappingTable} {hierarchy : Hierarchy}
    {c : MixinClass} (htable : table.WellFormed) (hhierarchy : hierarchy.WellFormed)
    (hmixin : c.annotations.any Declaration.isMixin = true)
    (hrun : (Remapper.remapClass ⟨table.naming, hierarchy, .failFast⟩ c).fault = none) :
    List.Forall₂
      (MethodSettled ⟨table.naming, hierarchy, .failFast⟩ c.name
        (Declaration.targets c.annotations))
      c.methods (Remapper.remapClass ⟨table.naming, hierarchy, .failFast⟩ c).value.methods :=
  Remapper.remapClass_settled ⟨htable.naming, hhierarchy, fun _ => Option.some_ne_none _⟩ hmixin
    hrun

/-- A redirection whose target is written by its name alone. -/
theorem settled_redirection :
    let table := (MappingTable.empty.withClass "a/T" "b/B").withMember ⟨⟨"a/T", "run", "()V"⟩, "go"⟩
    let hierarchy := Hierarchy.empty.withClass "a/T" (ClassInfo.empty.declaring "run" "()V")
    let c : MixinClass := ⟨"m/M", [], [⟨Vocabulary.mixin, [("targets", .strings ["a/T"])]⟩],
      [⟨"handler", "()V", [⟨Vocabulary.redirect, [("method", .string "run")]⟩]⟩], []⟩
    let run := Remapper.remapClass ⟨table.naming, hierarchy, .failFast⟩ c
    run.fault = none ∧
      (run.value.methods.flatMap Member.annotations).map
        (fun a => (a.get? "method").bind AnnotationValue.string?) = [some "Lb/B;go()V"] ∧
      List.Forall₂ (MethodSettled ⟨table.naming, hierarchy, .failFast⟩ "m/M"
        (Declaration.targets c.annotations)) c.methods run.value.methods := by
  intro table hierarchy c run
  have hclass : Selector.parse "Lb/B;" = .ok ⟨some "b/B", none, none⟩ := by rfl
  have hname : Selector.parse "go" = .ok ⟨none, some "go", none⟩ := by rfl
  have hmember : Selector.parse "La/T;run()V" = .ok (.ofMember ⟨"a/T", "run", "()V"⟩) := by
    decide +kernel
  have htable : table.WellFormed := by
    refine ⟨fun e he => ?_, fun e he => ?_⟩
    · cases List.mem_singleton.1 he
      exact (Selector.parse_eq_ok_iff.1 hclass).2
    · cases List.mem_singleton.1 he
      exact (Selector.parse_eq_ok_iff.1 hname).2
  have hhierarchy : hierarchy.WellFormed := by
    intro e he m hm
    cases List.mem_singleton.1 he
    cases List.mem_singleton.1 hm
    exact (Selector.parse_eq_ok_iff.1 hmember).2
  have hrun : run.fault = none := by decide +kernel
  refine ⟨hrun, by decide +kernel, ?_⟩
  exact unforgiving_run_settles_selectors htable hhierarchy (by decide) hrun

/-- A handler annotation has no meaning on a field, whatever the descriptor of the field. -/
theorem Remapper.remapField_of_injector (r : Remapper) {mixin : String} (t : TargetSet)
    {m : Member} {a : Annotation} (ha : a ∈ m.annotations) {kind : InjectorKind}
    (hkind : governing? (m.ref mixin) a.desc = some (.injector kind)) :
    (r.remapField mixin t m).value = m := by
  obtain ⟨name, desc, annotations⟩ := m
  rw [remapField, Edit.map, remapMain, given]
  split
  next found hfound =>
    obtain ⟨before, after, rfl, rfl⟩ := classifyFrom_of_governing ha hkind hfound
    dsimp only
    rw [Nat.zero_add, atIndex_append]
    rfl
  · rfl

/-- A handler annotation whose one target is a full name that the naming changes is not settled as
long as it stays as it is. -/
theorem not_methodSettled {r : Remapper} {mixin name desc text : String} {t : TargetSet}
    {m : MemberRef} (kind : InjectorKind) (hm : Selector.parse text = .ok (.ofMember m))
    (hchanges : ∀ desc, r.naming.signature m.desc = .ok desc →
      (Selector.ofMember (r.naming.target m desc)).render ≠ text)
    (hkind : governing? ⟨mixin, name, desc⟩ kind.descriptor = some (.injector kind)) :
    let handler : Member := ⟨name, desc, [⟨kind.descriptor, [("method", .string text)]⟩]⟩
    ¬MethodSettled r mixin t handler handler := by
  intro handler hsettled
  cases hsettled.handlers with
  | cons hhandler _ =>
    obtain ⟨stated, rfl | ⟨d, rfl⟩, helements⟩ := hhandler kind hkind
    · cases helements with
      | cons helement _ =>
        obtain ⟨filter, -, hitems⟩ := helement.2.selectors (.inl rfl)
        cases hitems with
        | cons hitem _ =>
          cases hitem with
          | text htext =>
            obtain ⟨desc, hdesc, hrenamed⟩ := htext.of_qualified hm
            exact hchanges desc hdesc hrenamed.symm
    · cases helements.length_eq

/-- A class that declares no targets keeps its selectors, although the run succeeds, and so do the
fields of a mixin, even one with the descriptor of a method. -/
theorem unsettled_outside_mixin_methods :
    let table := MappingTable.empty.withClass "a/T" "b/B"
    let r : Remapper := ⟨table.naming, .empty, .failFast⟩
    let handler : Member :=
      ⟨"handler", "()V", [⟨Vocabulary.redirect, [("method", .string "La/T;run()V")]⟩]⟩
    let plain : MixinClass := ⟨"m/M", [], [], [handler], []⟩
    let mixin : MixinClass :=
      ⟨"m/M", [], [⟨Vocabulary.mixin, [("targets", .strings ["a/T"])]⟩], [], [handler]⟩
    table.WellFormed ∧ Hierarchy.empty.WellFormed ∧
      (r.remapClass plain).fault = none ∧ (r.remapClass mixin).fault = none ∧
      (∀ t, ¬List.Forall₂ (MethodSettled r "m/M" t) plain.methods
        (r.remapClass plain).value.methods) ∧
      ∀ t, ¬List.Forall₂ (MethodSettled r "m/M" t) mixin.fields
        (r.remapClass mixin).value.fields := by
  intro table r handler plain mixin
  have hclass : Selector.parse "Lb/B;" = .ok ⟨some "b/B", none, none⟩ := by rfl
  have hmember : Selector.parse "La/T;run()V" = .ok (.ofMember ⟨"a/T", "run", "()V"⟩) := by
    decide +kernel
  have hunsettled (t : TargetSet) : ¬MethodSettled r "m/M" t handler handler := by
    refine not_methodSettled .redirect hmember (fun desc hdesc => ?_) (by decide)
    have hsame : r.naming.signature "()V" = .ok "()V" := by decide +kernel
    cases hsame.symm.trans hdesc
    decide +kernel
  refine ⟨?_, ?_, by decide +kernel, by decide +kernel, fun t h => ?_, fun t h => ?_⟩
  · refine ⟨fun e he => ?_, fun e he => by cases he⟩
    cases List.mem_singleton.1 he
    exact (Selector.parse_eq_ok_iff.1 hclass).2
  · intro e he
    cases he
  · have hplain : (r.remapClass plain).value.methods = [handler] := rfl
    rw [hplain] at h
    cases h with
    | cons hhandler _ => exact hunsettled t hhandler
  · have hfield :
        (r.remapField "m/M" (Declaration.targets mixin.annotations) handler).value = handler :=
      r.remapField_of_injector _ (List.mem_singleton.2 rfl)
        (by decide : governing? (handler.ref "m/M") Vocabulary.redirect =
          some (.injector .redirect))
    have hmixin : (r.remapClass mixin).value.fields =
        [(r.remapField "m/M" (Declaration.targets mixin.annotations) handler).value] := by
      have hdeclared : ((Edit.each (Declaration.remap r mixin.name) mixin.annotations).map
          fun annotations => { mixin with annotations }).fault = none := by decide +kernel
      rw [Remapper.remapClass, andThen_of_none hdeclared, if_pos (by decide),
        Remapper.remapMembers, andThen_of_none (by rfl)]
      exact congrArg Edit.value (each_singleton _ _)
    rw [hmixin, hfield] at h
    cases h with
    | cons hhandler _ => exact hunsettled t hhandler

end MixinNaming
