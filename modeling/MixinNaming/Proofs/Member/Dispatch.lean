import MixinNaming.Proofs.Effect.Queries
/-! What is done with a member once its annotations have been looked at. The gaps come first. Then
the rule of the one governing annotation is run on it, and neither its place nor the annotations
around it matter; a method without one is overwritten, and a field without one is left alone. -/
namespace MixinNaming

variable {α : Type}

namespace Edit

def precededBy (e : Edit α) (events : List Event) : Edit α := ⟨e.value, events ++ e.events, e.fault⟩

/-- Nothing is done but to report the gaps one after the other, up to the first that is refused. -/
inductive Reports (p : Policy) (a : α) : List Gap → Edit α → Prop
  | passed {gaps : List Gap} (h : ∀ g ∈ gaps, p.refusal g = none) :
      Reports p a gaps ⟨a, gaps.map .gap, none⟩
  | refused (passed : List Gap) {later : List Gap} {g : Gap} {f : Fault}
      (hpassed : ∀ x ∈ passed, p.refusal x = none) (hg : p.refusal g = some f) :
      Reports p a (passed ++ g :: later) ⟨a, (passed ++ [g]).map .gap, some f⟩

theorem given_precededBy {β : Type} (x : Attempt β) (events : List Event) (a : α)
    (f : β → Edit α) : given (x.precededBy events) a f = (given x a f).precededBy events := by
  obtain ⟨others, result⟩ := x
  cases result <;> simp [given, precededBy, Attempt.precededBy]

theorem map_check {β : Type} (f : α → β) (x : Attempt Unit) (a : α) :
    (check x a).map f = check x (f a) := by
  obtain ⟨events, result⟩ := x
  cases result <;> rfl

theorem Reports.cons {p : Policy} {a : α} {g : Gap} {gaps : List Gap} {e : Edit α}
    (hg : p.refusal g = none) (h : Reports p a gaps e) :
    Reports p a (g :: gaps) (e.precededBy [.gap g]) := by
  cases h with
  | passed h => exact .passed (List.forall_mem_cons.2 ⟨hg, h⟩)
  | @refused passed later stop f hpassed hstop =>
    exact .refused (g :: passed) (List.forall_mem_cons.2 ⟨hg, hpassed⟩) hstop

end Edit

namespace Remapper

variable (r : Remapper)

def uniqueGaps (member : MemberRef) (node : Annotation) : List Gap :=
  (node.names.filter fun name => name != "silent").map fun name => ⟨"", .uniqueElement name member⟩

/-- What the annotation that governs a method undergoes. -/
inductive MethodRule (site : Site) (t : TargetSet) (node : Annotation) : Edit Annotation → Prop
  | shadow (h : node.desc = Vocabulary.shadow) : MethodRule site t node (r.remapShadow site t node)
  | unique {e : Edit Annotation} (h : node.desc = Vocabulary.unique)
      (he : e.Reports r.policy node (uniqueGaps site.member node)) : MethodRule site t node e
  | overwrite (h : node.desc = Vocabulary.overwrite) :
      MethodRule site t node (r.remapOverwrite site t node)
  | injector (kind : InjectorKind) (h : node.desc = kind.descriptor) :
      MethodRule site t node
        (kind.rules.remap r ⟨site.member.owner, site.member.name, site.member.desc, t⟩ node)

inductive FieldRule (site : Site) (t : TargetSet) (node : Annotation) : Edit Annotation → Prop
  | shadow (h : node.desc = Vocabulary.shadow) : FieldRule site t node (r.remapShadow site t node)
  | unique {e : Edit Annotation} (h : node.desc = Vocabulary.unique)
      (he : e.Reports r.policy node (uniqueGaps site.member node)) : FieldRule site t node e
  /-- A field whose descriptor is one of a method may be governed by the annotation of a handler, and
  no rule is run on that. -/
  | other (hshadow : node.desc ≠ Vocabulary.shadow) (hunique : node.desc ≠ Vocabulary.unique) :
      FieldRule site t node (.keep node)

/-- A method takes the name that the targets give it, and no annotation says so. -/
structure OverwritesImplicitly (site : Site) (t : TargetSet) (m : Member) (e : Edit Member) :
    Prop where
  settled : e = .check (r.settleOverwrite site t implicitOverwriteLabel) m
  value : e.value = m
  effect : r.Overwrites site t [] e.effect
  asks : e.Asks (r.AsksInterface site t)

/-- What becomes of a member by its annotations. `run` edits the member, `rule` says what a
governing annotation undergoes, and `without` what is done where there is none. -/
structure Dispatches (member : MemberRef) (rule : Annotation → Edit Annotation → Prop)
    (without : Edit Member → Prop) (run : Member → Edit Member) (m : Member) : Prop where
  /-- Under every policy two governing annotations stop the run, with the member as it was. -/
  conflicting : ∀ a b more, mains member m.annotations = a :: b :: more →
    ∃ passed f, passed <+: strayGaps member m.annotations ∧ run m = ⟨m, passed.map .gap, some f⟩
  /-- Unless a gap comes first, the fault names the first two of them. -/
  named : ∀ a b more, mains member m.annotations = a :: b :: more →
    r.PassesStrays member m.annotations →
      (run m).fault = some (.illegal "" (.conflictingAnnotations member a.desc b.desc))
  /-- A stray annotation that the policy does not pass over stops the run as well. -/
  stopped : ∀ passed g later f, (mains member m.annotations).length ≤ 1 →
    strayGaps member m.annotations = passed ++ g :: later →
      (∀ x ∈ passed, r.policy.refusal x = none) → r.policy.refusal g = some f →
        run m = ⟨m, (passed ++ [g]).map .gap, some f⟩
  /-- After all gaps a single governing annotation is edited, and as if it stood alone. -/
  governed : ∀ a, mains member m.annotations = [a] → r.PassesStrays member m.annotations →
    ∃ before after edit, m.annotations = before ++ a :: after ∧ rule a edit ∧
      run m = (edit.map fun b => { m with annotations := before ++ b :: after }).precededBy
        ((strayGaps member m.annotations).map .gap) ∧
      run { m with annotations := [a] } = edit.map fun b => { m with annotations := [b] }
  ungoverned : mains member m.annotations = [] → r.PassesStrays member m.annotations →
    ∃ edit, without edit ∧ run m = edit.precededBy ((strayGaps member m.annotations).map .gap)

variable {r} {site : Site} {t : TargetSet}

section Rules

theorem reportEach_reports {α : Type} (a : α) (location : String) (features : List Feature) :
    (Edit.check (r.reportEach location features) a).Reports r.policy a
      (features.map fun feature => ⟨location, feature⟩) := by
  induction features with
  | nil => exact .passed nofun
  | cons feature rest ih =>
    rw [reportEach, List.map_cons]
    cases hrefusal : r.policy.refusal ⟨location, feature⟩ with
    | none =>
      have hfront : Edit.check (((r.report location feature).bind fun _ =>
          r.reportEach location rest)) a =
          (Edit.check (r.reportEach location rest) a).precededBy [.gap ⟨location, feature⟩] := by
        rw [report_of_passed hrefusal]
        exact Edit.given_precededBy (r.reportEach location rest) _ a _
      rw [hfront]
      exact ih.cons hrefusal
    | some f =>
      rw [report_of_refused hrefusal]
      exact .refused [] nofun hrefusal

theorem remapUnique_reports (site : Site) (node : Annotation) :
    (r.remapUnique site node).Reports r.policy node (uniqueGaps site.member node) := by
  have hreports := r.reportEach_reports node ""
    ((node.names.filter fun name => name != "silent").map fun name =>
      .uniqueElement name site.member)
  rw [List.map_map] at hreports
  exact hreports

theorem methodRule_of_governing? {member : MemberRef} {node : Annotation} {kind : AnnotationKind}
    (h : governing? member node.desc = some kind) (site : Site) (t : TargetSet) :
    r.MethodRule site t node (r.remapGoverningMethod site t kind node) := by
  obtain ⟨hdesc, hmain, -⟩ := governing?_eq_some.1 h
  cases kind with
  | shadow => exact .shadow hdesc.symm
  | unique => exact .unique hdesc.symm (remapUnique_reports site node)
  | overwrite => exact .overwrite hdesc.symm
  | injector kind => exact .injector kind hdesc.symm
  | final => cases hmain
  | mutable => cases hmain

theorem fieldRule_of_governing? {member : MemberRef} {node : Annotation} {kind : AnnotationKind}
    (h : governing? member node.desc = some kind) (site : Site) (t : TargetSet) :
    r.FieldRule site t node (r.remapGoverningField site t kind node) := by
  obtain ⟨hdesc, -, -⟩ := governing?_eq_some.1 h
  have hother : ∀ other : AnnotationKind, kind ≠ other → node.desc ≠ other.descriptor := by
    intro other hne heq
    have hsame := AnnotationKind.ofDescriptor?_descriptor kind
    rw [hdesc, heq, AnnotationKind.ofDescriptor?_descriptor] at hsame
    exact hne (Option.some.inj hsame).symm
  cases kind with
  | shadow => exact .shadow hdesc.symm
  | unique => exact .unique hdesc.symm (remapUnique_reports site node)
  | _ => exact .other (hother .shadow nofun) (hother .unique nofun)

theorem settleOverwrite_implicitly (site : Site) (t : TargetSet) (m : Member) :
    r.OverwritesImplicitly site t m
      (.check (r.settleOverwrite site t implicitOverwriteLabel) m) where
  settled := rfl
  value := Edit.value_check _ m
  effect := by
    rw [Edit.effect_check]
    exact effect_settleOverwrite site t implicitOverwriteLabel
  asks := .check (settleOverwrite_asks site t implicitOverwriteLabel) m

end Rules

section Main

variable {without : Attempt Unit} {rule : AnnotationKind → Annotation → Edit Annotation}
  {annotations : List Annotation} {a : Annotation}

theorem remapMain_of_error {f : Fault}
    (h : (r.classify site.member annotations).result = .error f) :
    r.remapMain site without rule annotations =
      ⟨annotations, (r.classify site.member annotations).events, some f⟩ := by
  rw [remapMain, Edit.given, h]

/-- The rule sees the governing annotation alone. -/
theorem remapMain_of_main {before after : List Annotation} {kind : AnnotationKind}
    (hbefore : ∀ x ∈ before, governs site.member x = false)
    (ha : governing? site.member a.desc = some kind) (hafter : mains site.member after = [])
    (hpasses : r.PassesStrays site.member (before ++ a :: after)) :
    r.remapMain site without rule (before ++ a :: after) =
      ((rule kind a).map fun b => before ++ b :: after).precededBy
        ((strayGaps site.member (before ++ a :: after)).map .gap) := by
  rw [remapMain, classify_of_governed hbefore ha hafter hpasses, Edit.given_precededBy]
  exact congrArg (Edit.precededBy · _) (Edit.atIndex_append (rule kind) before after a)

theorem remapMain_of_mains_nil (h : mains site.member annotations = [])
    (hpasses : r.PassesStrays site.member annotations) :
    r.remapMain site without rule annotations =
      (Edit.check without annotations).precededBy
        ((strayGaps site.member annotations).map .gap) := by
  rw [remapMain, classify_of_mains_nil h hpasses, Edit.given_precededBy]
  rfl

end Main

/-- A member is dispatched by its annotations whenever its edit is the edit of them. -/
theorem dispatches (site : Site) {without : Attempt Unit}
    {edits : AnnotationKind → Annotation → Edit Annotation} {run : Member → Edit Member}
    {rule : Annotation → Edit Annotation → Prop} {without' : Edit Member → Prop}
    {name desc : String}
    (hrun : ∀ annotations, run ⟨name, desc, annotations⟩ =
      (r.remapMain site without edits annotations).map fun edited => ⟨name, desc, edited⟩)
    (hrule : ∀ a kind, governing? site.member a.desc = some kind → rule a (edits kind a))
    (annotations : List Annotation)
    (hwithout : without' (.check without ⟨name, desc, annotations⟩)) :
    r.Dispatches site.member rule without' run ⟨name, desc, annotations⟩ where
  conflicting a b more h := by
    obtain ⟨f, hf⟩ := r.exists_fault_of_conflict h
    obtain ⟨passed, hprefix, hevents⟩ := classifyFrom_events r site.member 0 none annotations
    refine ⟨passed, f, hprefix, ?_⟩
    rw [hrun, remapMain_of_error hf, classify, hevents]
    rfl
  named a b more h hpasses := by
    rw [hrun, remapMain_of_error (fault_of_conflict h hpasses)]
    rfl
  stopped passed g later f hmains hgaps hpassed hg := by
    have hclassify := classify_of_refused hmains hgaps hpassed hg
    rw [hrun, remapMain_of_error (congrArg Attempt.result hclassify), hclassify]
    rfl
  governed a h hpasses := by
    obtain ⟨before, after, kind, heq, hkind, hbefore, hafter⟩ := exists_of_mains_cons h
    refine ⟨before, after, edits kind a, heq, hrule a kind hkind, ?_, ?_⟩
    · dsimp only at heq hpasses ⊢
      subst heq
      rw [hrun, remapMain_of_main hbefore hkind hafter hpasses]
      rfl
    · have halone : strayGaps site.member ([] ++ a :: []) = [] := by rw [strayGaps_main hkind]; rfl
      have hpassesAlone : r.PassesStrays site.member ([] ++ a :: []) := by
        intro g hg
        rw [halone] at hg
        cases hg
      have hmain : r.remapMain site without edits ([] ++ a :: []) = _ :=
        remapMain_of_main (fun _ hx => absurd hx List.not_mem_nil) hkind rfl hpassesAlone
      rw [halone] at hmain
      rw [hrun]
      exact congrArg (Edit.map _) hmain
  ungoverned h hpasses := by
    refine ⟨_, hwithout, ?_⟩
    rw [hrun, remapMain_of_mains_nil h hpasses, ← Edit.map_check _ without annotations]
    rfl

/-- Classification comes before the rules. A method is then treated by the rule of the annotation
that governs it, or overwritten; a field is treated by a rule, or left as it is. -/
theorem classification_precedes_rules (r : Remapper) (mixin : String) (interfaces : List String)
    (t : TargetSet) (m : Member) :
    r.Dispatches (m.ref mixin) (r.MethodRule ⟨m.ref mixin, interfaces⟩ t)
        (r.OverwritesImplicitly ⟨m.ref mixin, interfaces⟩ t m) (r.remapMethod mixin interfaces t)
        m ∧
      r.Dispatches (m.ref mixin) (r.FieldRule ⟨m.ref mixin, []⟩ t) (· = .keep m)
        (r.remapField mixin t) m := by
  constructor
  · exact dispatches ⟨m.ref mixin, interfaces⟩ (fun _ => rfl)
      (fun a kind hkind => methodRule_of_governing? hkind _ t) m.annotations
      (settleOverwrite_implicitly _ t m)
  · exact dispatches ⟨m.ref mixin, []⟩ (fun _ => rfl)
      (fun a kind hkind => fieldRule_of_governing? hkind _ t) m.annotations rfl

/-- A method with its main annotation among others, without annotations and with two main ones, and
a field whose only annotation is for methods. -/
theorem members_with_mixed_annotations :
    let table := MappingTable.empty.withMember ⟨⟨"a/T", "run", "()V"⟩, "go"⟩
    let r : Remapper := ⟨table.naming, .empty, .lenient⟩
    let t : TargetSet := .single "a/T"
    let node (desc : String) : Annotation := ⟨desc, []⟩
    let m (annotations : List Annotation) : Member := ⟨"run", "()V", annotations⟩
    let field : Member := ⟨"count", "I", [node Vocabulary.inject]⟩
    let member := (m []).ref "m/M"
    let stray := "Lorg/spongepowered/asm/mixin/Debug;"
    let mixed := m [node "Ljava/lang/Deprecated;", node stray, node Vocabulary.unique,
      node Vocabulary.final]
    r.remapMethod "m/M" [] t mixed =
        ⟨mixed, [.gap ⟨"", .unknownOnMember member stray⟩], none⟩ ∧
      (r.remapMethod "m/M" [] t (m [])).effect = ⟨[⟨member, "go"⟩], [], none⟩ ∧
      (r.remapMethod "m/M" [] t (m [node Vocabulary.unique, node Vocabulary.overwrite])).fault =
        some (.illegal ""
          (.conflictingAnnotations member Vocabulary.unique Vocabulary.overwrite)) ∧
      r.remapField "m/M" t field =
        ⟨field, [.gap ⟨"", .unknownOnMember (field.ref "m/M") Vocabulary.inject⟩], none⟩ := by
  intro table r t node m field member stray mixed
  have hpasses : ∀ member annotations, r.PassesStrays member annotations := fun _ _ _ _ => rfl
  have hmains : ∀ member (descs : List String), mains member (descs.map node) =
      (descs.filter fun desc => governs member (node desc)).map node := fun _ _ => List.filter_map
  refine ⟨?_, ?_, ?_, ?_⟩
  · have hdescs : ["Ljava/lang/Deprecated;", stray, Vocabulary.unique, Vocabulary.final].filter
        (fun desc => governs member (node desc)) = [Vocabulary.unique] := by decide +kernel
    obtain ⟨before, after, edit, hmixed, hrule, hrun, -⟩ :=
      (classification_precedes_rules r "m/M" [] t mixed).1.governed (node Vocabulary.unique)
        ((hmains member _).trans (congrArg (List.map node) hdescs)) (hpasses _ _)
    have hkeep : edit = .keep (node Vocabulary.unique) := by
      cases hrule with
      | unique _ hreports =>
        generalize hgaps : uniqueGaps (mixed.ref "m/M") (node Vocabulary.unique) = gaps at hreports
        cases hreports with
        | passed => rw [← hgaps]; rfl
        | refused => cases (List.append_eq_nil_iff.1 hgaps.symm).2
      | shadow h => exact absurd h (by decide)
      | overwrite h => exact absurd h (by decide)
      | injector kind h => cases kind <;> exact absurd h (by decide)
    have hgaps : strayGaps (mixed.ref "m/M") mixed.annotations =
        [⟨"", .unknownOnMember member stray⟩] := by decide +kernel
    rw [hrun, hkeep, hgaps, Edit.keep, Edit.map, Edit.precededBy, ← hmixed]
    rfl
  · obtain ⟨edit, himplicit, hrun⟩ :=
      (classification_precedes_rules r "m/M" [] t (m [])).1.ungoverned rfl (hpasses _ _)
    have hagreed : r.Agreed .everyTarget t "run" "()V" "go" := by
      refine ⟨⟨"a/T", List.mem_singleton_self _, trivial⟩, fun c hc _ => ?_⟩
      cases List.mem_singleton.1 hc
      decide +kernel
    rw [hrun]
    refine (himplicit.effect.agreed "go" hagreed).renamed (by decide) ?_
    rintro ⟨interface, hinterface, -⟩
    cases hinterface
  · have hdescs : [Vocabulary.unique, Vocabulary.overwrite].filter
        (fun desc => governs member (node desc)) = [Vocabulary.unique, Vocabulary.overwrite] := by
      decide +kernel
    exact (classification_precedes_rules r "m/M" [] t _).1.named (node Vocabulary.unique)
      (node Vocabulary.overwrite) [] ((hmains member _).trans (congrArg (List.map node) hdescs))
      (hpasses _ _)
  · have hdescs : [Vocabulary.inject].filter
        (fun desc => governs (field.ref "m/M") (node desc)) = [] := by decide +kernel
    have hgaps : strayGaps (field.ref "m/M") field.annotations =
        [⟨"", .unknownOnMember (field.ref "m/M") Vocabulary.inject⟩] := by decide +kernel
    obtain ⟨edit, rfl, hrun⟩ :=
      (classification_precedes_rules r "m/M" [] t field).2.ungoverned
        ((hmains (field.ref "m/M") _).trans (congrArg (List.map node) hdescs)) (hpasses _ _)
    rw [hrun, hgaps]
    rfl

end Remapper

end MixinNaming
