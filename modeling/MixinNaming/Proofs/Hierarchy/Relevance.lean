import MixinNaming.MappingTable
import MixinNaming.Proofs.Coupling.ClassPass
import MixinNaming.Proofs.Frame.Members
import MixinNaming.Proofs.Hierarchy.Reachability
/-! What a run reads of the hierarchy. Members are looked for in the targets of the mixin, in the
interfaces it implements and in the owners that its partial selectors state, and from there only
upward. Of any other class a run does not even learn whether it is known. -/
namespace MixinNaming

def AnnotationValue.StatesOwner (v : AnnotationValue) (owner : String) : Prop :=
  ∃ text s, .string text ∈ v.items ∧ Selector.parse text = .ok s ∧ s.qualified? = none ∧
    s.owner = some owner

def holdsSelectors (name : String) : Prop := name = "method" ∨ name = "target"

def Annotation.StatesOwner (a : Annotation) (owner : String) : Prop :=
  ∃ e ∈ a.elements, holdsSelectors e.1 ∧ e.2.StatesOwner owner

/-- The classes in which a run over a mixin begins to look for members. -/
inductive MixinClass.LooksIn (c : MixinClass) : String → Prop where
  | target {x : String} (h : x ∈ (Declaration.targets c.annotations).classes) : c.LooksIn x
  | interface {x : String} (h : x ∈ c.interfaces) : c.LooksIn x
  | owner {x : String} {m : Member} {a : Annotation} {kind : InjectorKind} (hm : m ∈ c.methods)
      (ha : a ∈ m.annotations) (hkind : a.desc = kind.descriptor) (h : a.StatesOwner x) :
      c.LooksIn x

def Remapper.under (r : Remapper) (k : Hierarchy) : Remapper := { r with hierarchy := k }

theorem holdsSelectors_of_rule {kind : InjectorKind} {name : String} {rule : ElementRule}
    (h : kind.rules.rule? name = some rule) (hrule : rule.readsSelectors = true) :
    holdsSelectors name := by
  have hmem : (name, rule) ∈ kind.rules.rules := by
    obtain ⟨before, after, heq, -⟩ := List.lookup_eq_some_iff.1 h
    rw [heq]
    exact List.mem_append_right _ List.mem_cons_self
  have hall : ∀ e ∈ kind.rules.rules, e.2.readsSelectors = true →
      e.1 = "method" ∨ e.1 = "target" := by
    cases kind <;> decide
  exact hall _ hmem hrule

section

variable {r : Remapper} {k : Hierarchy} {t : TargetSet}

theorem inferCandidates_under {scope : List String}
    (hscope : ∀ c ∈ scope, r.hierarchy.AgreesAbove k c) (s : Selector) (filter : DescriptorFilter) :
    r.inferCandidates s filter scope = (r.under k).inferCandidates s filter scope := by
  induction scope with
  | nil => rfl
  | cons c rest ih =>
    rw [List.forall_mem_cons] at hscope
    have hinfer : r.infer c s.name s.desc = (r.under k).infer c s.name s.desc := by
      rw [Remapper.infer, hscope.1.infer]
      rfl
    rw [Remapper.inferCandidates, Remapper.inferCandidates, hinfer, ih hscope.2]

theorem knownMembers_under {scope : List String}
    (hscope : ∀ c ∈ scope, r.hierarchy.AgreesAbove k c) :
    r.knownMembers scope = (r.under k).knownMembers scope := by
  refine List.filterMap_congr fun c hc => ?_
  rw [(hscope c hc).listMembers]
  rfl

theorem guardInterfaces_under {interfaces : List String}
    (hguards : ∀ c ∈ interfaces, r.hierarchy.AgreesAbove k c) (site : Site) (label : String) :
    r.guardInterfaces site label t interfaces =
      (r.under k).guardInterfaces site label t interfaces := by
  induction interfaces with
  | nil => rfl
  | cons interface rest ih =>
    rw [List.forall_mem_cons] at hguards
    have hdeclares : r.declares interface site.member.name site.member.desc =
        (r.under k).declares interface site.member.name site.member.desc := by
      rw [Remapper.declares, hguards.1.declares]
      rfl
    rw [Remapper.guardInterfaces, Remapper.guardInterfaces, hdeclares, ih hguards.2]
    rfl

variable (ht : ∀ c ∈ t.classes, r.hierarchy.AgreesAbove k c)
include ht

theorem attuned_under : Attuned Coupling.equal r (r.under k) t t where
  naming := rfl
  points := rfl
  report _ _ := rfl
  descName _ _ _ := rfl
  memberName site label name electorate := by
    refine agree_congr fun target htarget => ?_
    cases electorate with
    | everyTarget => rfl
    | declaringTargets =>
      rw [Remapper.nameIn, Remapper.nameIn, Remapper.declares, (ht target htarget).declares]
      rfl

theorem resolveSelector_under {text : String}
    (howner : ∀ s, Selector.parse text = .ok s → s.qualified? = none →
      ∀ x ∈ s.owner, r.hierarchy.AgreesAbove k x) (location : String) (filter : DescriptorFilter) :
    r.resolveSelector location text (some t) filter =
      (r.under k).resolveSelector location text (some t) filter := by
  rw [Remapper.resolveSelector, Remapper.resolveSelector]
  cases hs : Selector.parse text with
  | error v => rfl
  | ok s =>
    cases hq : s.qualified? with
    | some m =>
      simp only [hq]
      rfl
    | none =>
      simp only [hq]
      have hscope : ∀ c ∈ Remapper.scopeOf s t, r.hierarchy.AgreesAbove k c := by
        intro c hc
        rw [Remapper.scopeOf] at hc
        cases hstated : s.owner with
        | none =>
          rw [hstated] at hc
          exact ht c hc
        | some x =>
          rw [hstated] at hc
          obtain rfl := List.mem_singleton.1 hc
          exact howner s hs hq c hstated
      rw [Remapper.inferSelector, Remapper.inferSelector, inferCandidates_under hscope]
      simp only [Remapper.leaveUnresolved, knownMembers_under hscope]
      rfl

theorem remapSelectorList_under {v : AnnotationValue}
    (hv : ∀ x, v.StatesOwner x → r.hierarchy.AgreesAbove k x) (owner : String)
    (filter : DescriptorFilter) :
    r.remapSelectorList owner t filter v = (r.under k).remapSelectorList owner t filter v := by
  refine congrArg (Edit.map v.withItems) (Edit.eachFrom_congr (fun i item hitem => ?_) 0)
  cases item with
  | string text =>
    rw [Remapper.remapSelectorValue, Remapper.remapSelectorValue,
      resolveSelector_under ht fun s hs hq x hx => hv x ⟨text, s, hitem, hs, hq, hx⟩]
  | nested node =>
    exact congrArg (Edit.map AnnotationValue.nested) ((attuned_under ht).remapDesc _ .method node)
  | _ => rfl

/-- The target that a hook may add is a @Desc, which states no owner in a selector. -/
theorem ruleSet_under {kind : InjectorKind} {node : Annotation}
    (hnode : ∀ x, node.StatesOwner x → r.hierarchy.AgreesAbove k x) (mixin name desc : String) :
    kind.rules.remap r ⟨mixin, name, desc, t⟩ node =
      kind.rules.remap (r.under k) ⟨mixin, name, desc, t⟩ node := by
  refine Edit.andThen_congr fun _ => ?_
  have hadded : ∀ e ∈
      (RuleSet.applyHooks ⟨mixin, name, desc, t⟩ kind.rules.hooks node).value.elements,
      e ∈ node.elements ∨ ∃ d, e.2 = .nested d := by
    intro e he
    rcases RuleSet.applyHooks_value ⟨mixin, name, desc, t⟩ kind.rules.hooks node with
      heq | ⟨-, -, -, d, heq⟩
    · rw [heq] at he
      exact .inl he
    · rw [heq, Annotation.add, List.mem_append, List.mem_singleton] at he
      exact he.imp_right fun heq => ⟨d, congrArg Prod.snd heq⟩
  generalize (RuleSet.applyHooks ⟨mixin, name, desc, t⟩ kind.rules.hooks node).value = hooked
    at hadded ⊢
  refine congrArg (Edit.map _) (Edit.each_congr fun e he => congrArg (Edit.map _) ?_)
  rw [RuleSet.remapElement, RuleSet.remapElement]
  cases hrule : kind.rules.rule? e.1 with
  | none => rfl
  | some rule =>
    refine (attuned_under ht).elementRule rule mixin name desc e.1 e.2 fun hreads owner filter => ?_
    refine remapSelectorList_under ht (fun x hx => ?_) owner filter
    rcases hadded e he with hmem | ⟨d, hd⟩
    · exact hnode x ⟨e, hmem, holdsSelectors_of_rule hrule hreads, hx⟩
    · obtain ⟨text, s, hitem, -⟩ := hx
      rw [hd] at hitem
      cases List.mem_singleton.1 hitem

theorem remapMethod_under {m : Member} {interfaces : List String}
    (hguards : ∀ c ∈ interfaces, r.hierarchy.AgreesAbove k c)
    (howners : ∀ a ∈ m.annotations, ∀ kind : InjectorKind, a.desc = kind.descriptor →
      ∀ x, a.StatesOwner x → r.hierarchy.AgreesAbove k x) (mixin : String) :
    r.remapMethod mixin interfaces t m = (r.under k).remapMethod mixin interfaces t m := by
  have hr := attuned_under ht
  have hguard := fun label =>
    guardInterfaces_under (t := t) hguards ⟨m.ref mixin, interfaces⟩ label
  have hclassify := hr.classify (m.ref mixin) 0 none m.annotations
  have hoverwrite := hr.settleOverwrite ⟨m.ref mixin, interfaces⟩ hguard
    Remapper.implicitOverwriteLabel
  refine congrArg (Edit.map _) ?_
  rw [Remapper.remapMain, Remapper.remapMain, Remapper.classify, Remapper.classify, ← hclassify,
    ← hoverwrite]
  refine Edit.given_congr fun found hfound => ?_
  rcases classifyFrom_eq_ok hfound with ⟨rfl, -⟩ | ⟨-, before, a, after, kind, hm, ha, rfl, -⟩
  · rfl
  · dsimp only
    rw [hm, Nat.zero_add, Edit.atIndex_append, Edit.atIndex_append]
    refine congrArg (Edit.map _) ?_
    cases kind with
    | shadow => exact hr.remapShadow _ (hr.settleShadow _ hguard) a
    | unique => exact hr.remapUnique _ a
    | overwrite => exact hr.remapOverwrite _ (hr.settleOverwrite _ hguard) a
    | injector kind =>
      refine ruleSet_under ht (fun x hx => ?_) mixin m.name m.desc
      have hmem : a ∈ m.annotations := by
        rw [hm]
        exact List.mem_append_right _ List.mem_cons_self
      exact howners a hmem kind (descriptor_of_governing? ha).symm x hx
    | final => rfl
    | mutable => rfl

theorem remapMembers_under {c : MixinClass}
    (hguards : ∀ x ∈ c.interfaces, r.hierarchy.AgreesAbove k x)
    (howners : ∀ m ∈ c.methods, ∀ a ∈ m.annotations, ∀ kind : InjectorKind,
      a.desc = kind.descriptor → ∀ x, a.StatesOwner x → r.hierarchy.AgreesAbove k x) :
    r.remapMembers t c = (r.under k).remapMembers t c := by
  have hmethods : Edit.each (r.remapMethod c.name c.interfaces t) c.methods =
      Edit.each ((r.under k).remapMethod c.name c.interfaces t) c.methods :=
    Edit.each_congr fun m hm => remapMethod_under ht hguards (howners m hm) c.name
  have hfields : ∀ c' : MixinClass, r.remapField c'.name t = (r.under k).remapField c'.name t :=
    fun c' => funext fun m => (attuned_under ht).remapField c'.name m
      ((attuned_under ht).settleShadow ⟨m.ref c'.name, []⟩ fun _ => rfl)
  rw [Remapper.remapMembers, Remapper.remapMembers, hmethods]
  simp only [hfields]

end

/-- A run over a mixin is the same in every respect over two hierarchies that agree on each class
that can be reached from where the run begins to look. So a class that cannot be reached, such as a
subclass of a target, may as well be missing or be another one. -/
theorem unreached_classes_have_no_influence (n : Naming) (h : Hierarchy) (p : Policy)
    (c : MixinClass) :
    (∀ k, (∀ x, c.LooksIn x → h.AgreesAbove k x) →
      Remapper.remapClass ⟨n, h, p⟩ c = Remapper.remapClass ⟨n, k, p⟩ c) ∧
      ∀ k d, (∀ x, x ≠ d → h.get? x = k.get? x) → (∀ x, c.LooksIn x → ¬h.Reaches x d) →
        Remapper.remapClass ⟨n, h, p⟩ c = Remapper.remapClass ⟨n, k, p⟩ c := by
  have hsame : ∀ k, (∀ x, c.LooksIn x → h.AgreesAbove k x) →
      Remapper.remapClass ⟨n, h, p⟩ c = Remapper.remapClass ⟨n, k, p⟩ c := by
    intro k hk
    -- the declarations are renamed without a question to the hierarchy
    refine Edit.andThen_congr fun _ => ?_
    split
    · refine remapMembers_under (r := ⟨n, h, p⟩) (fun x hx => hk x (.target hx))
        (fun x hx => hk x (.interface hx)) fun m hm a ha kind hkind x hx => ?_
      exact hk x (.owner hm ha hkind hx)
    · rfl
  refine ⟨hsame, fun k d hk hd => hsame k fun x hx => ?_⟩
  exact Hierarchy.agreesAbove_of_differs hk (hd x hx)

/-- A subclass of the target declares overloads of what a handler asks for, and both selectors of
the handler are resolved as if it did not exist. -/
theorem subclass_has_no_influence :
    let h := (Hierarchy.empty.withClass "a/T"
      ((ClassInfo.empty.extending "a/S").declaring "run" "()V")).withClass "a/O"
        (ClassInfo.empty.declaring "stop" "()V")
    let k := h.withClass "a/U"
      (((ClassInfo.empty.extending "a/T").declaring "stop" "(I)V").declaring "run" "(I)V")
    let handler : Member :=
      ⟨"on", "()V", [⟨Vocabulary.redirect, [("method", .strings ["La/O;stop", "run"])]⟩]⟩
    let mixin : MixinClass := ⟨"m/M", ["a/I"],
      [⟨Vocabulary.mixin, [("targets", .strings ["a/T"])]⟩], [handler], []⟩
    let run (h : Hierarchy) := Remapper.remapClass ⟨MappingTable.empty.naming, h, .failFast⟩ mixin
    run h = run k ∧ (run k).fault = none ∧ Event.queries (run k).events =
      [.infer "a/O" (some "stop") none, .infer "a/T" (some "run") none] := by
  intro h k handler mixin run
  have hdiffers : ∀ x, x ≠ "a/U" → h.get? x = k.get? x := by
    intro x hx
    have hne : compare x "a/U" ≠ .eq := fun heq => hx (Std.LawfulEqOrd.eq_of_compare heq)
    exact ((Table.get?_insert h.classes "a/U" x _).trans (if_neg hne)).symm
  have hentries : ∀ e ∈ h.classes.entries, "a/U" ∉ e.2.supertypes := by decide +kernel
  have hclosed : ∀ x y, x ≠ "a/U" → h.Edge x y → y ≠ "a/U" := by
    rintro x y - ⟨info, hinfo, hy⟩ rfl
    exact hentries (x, info) (Table.mem_of_get? hinfo) hy
  have hroots : ∀ x, mixin.LooksIn x → x ≠ "a/U" := by
    intro x hx
    cases hx with
    | target hx =>
      have htargets : (Declaration.targets mixin.annotations).classes = ["a/T"] := by decide +kernel
      rw [htargets, List.mem_singleton] at hx
      rw [hx]
      decide
    | interface hx =>
      rw [List.mem_singleton.1 hx]
      decide
    | owner hm ha _ hx =>
      obtain ⟨e, he, -, text, s, hitem, hs, -, howner⟩ := hx
      cases List.mem_singleton.1 hm
      cases List.mem_singleton.1 ha
      cases List.mem_singleton.1 he
      have hfirst : Selector.parse "La/O;stop" = .ok ⟨some "a/O", some "stop", none⟩ := by
        decide +kernel
      have hsecond : Selector.parse "run" = .ok ⟨none, some "run", none⟩ := by decide +kernel
      rcases List.mem_cons.1 hitem with heq | hitem
      · cases heq
        cases hfirst.symm.trans hs
        cases howner
        decide
      · cases List.mem_singleton.1 hitem
        cases hsecond.symm.trans hs
        cases howner
  refine ⟨(unreached_classes_have_no_influence _ _ _ _).2 k "a/U" hdiffers fun x hx hr => ?_,
    by decide +kernel, by decide +kernel⟩
  exact Hierarchy.Reaches.mem_of_closed hclosed (hroots x hx) hr rfl

end MixinNaming
