import Mathlib.Tactic.SplitIfs
import MixinNaming.MappingTable
import MixinNaming.Proofs.Frame.ClassPass
import MixinNaming.Proofs.Locality.Renames
/-! What a gap leaves behind when the policy lets it pass. A selector that is not resolved keeps its
text, an unknown element its value, an unknown annotation all it holds, and a @Shadow member that no
target declares its name. Only a field @Desc without a type is renamed in part. -/
namespace MixinNaming

open Annotation (get?_set_of_ne get?_set_self set_eq_self_iff)

/-- Whether the rules know the element of an annotation of that type; any other is a gap. -/
def isKnownElement (desc name : String) : Bool :=
  if desc = Vocabulary.descType then DescReference.isKnownElement name
  else if desc = Vocabulary.atType then Remapper.isKnownAtElement name
  else if desc = Vocabulary.sliceType then name ∈ ["id", "from", "to"]
  else if desc = Vocabulary.mixin then name ∈ ["value", "targets", "priority", "remap"]
  else
    match AnnotationKind.ofDescriptor? desc with
    | some .shadow => name ∈ ["prefix", "aliases"]
    | some .overwrite => name ∈ ["aliases", "constraints"]
    | some .unique => name = "silent"
    | some (.injector kind) => (kind.rules.rule? name).isSome
    | _ => false

theorem isKnownElement_of_isEditable {desc name : String} (h : isEditable desc name = true) :
    isKnownElement desc name = true := by
  have hdesc : ∀ name ∈ ["value", "owner", "ret"], DescReference.isKnownElement name = true := by
    decide
  have hat : ∀ name ∈ ["args", "target", "desc"], Remapper.isKnownAtElement name = true := by
    decide
  unfold isEditable at h
  unfold isKnownElement
  split_ifs at h ⊢
  · exact hdesc name (of_decide_eq_true h)
  · exact hat name (of_decide_eq_true h)
  · exact decide_eq_true (List.mem_cons_of_mem "id" (of_decide_eq_true h))
  · exact decide_eq_true (List.mem_append_left ["priority", "remap"] (of_decide_eq_true h))
  · cases hkind : AnnotationKind.ofDescriptor? desc with
    | none => simp [hkind] at h
    | some kind =>
      cases kind with
      | injector kind =>
        simp only [hkind] at h ⊢
        cases hrule : kind.rules.rule? name with
        | none => simp [hrule] at h
        | some rule => rfl
      | _ => simp_all

def shadowedName (lead name : String) : String := (stripLead lead name).getD name

theorem stripLead_eq_some_iff {lead name rest : String} :
    stripLead lead name = some rest ↔ rest ≠ "" ∧ name = lead ++ rest := by
  have hsplit : name = lead ++ rest ↔ lead.toList.isPrefixOf? name.toList = some rest.toList := by
    rw [List.isPrefixOf?_eq_some_iff_append_eq, String.ext_iff, String.toList_append, eq_comm]
  rw [hsplit, stripLead, ne_eq, ← String.toList_eq_nil_iff]
  split
  · next c more hmore =>
    rw [hmore, Option.some.injEq, Option.some.injEq, String.ext_iff, String.toList_ofList]
    constructor
    · intro hrest
      exact ⟨hrest ▸ List.cons_ne_nil c more, hrest⟩
    · exact And.right
  · next hnone =>
    constructor
    · nofun
    · rintro ⟨hrest, hsome⟩
      obtain ⟨c, more, hcons⟩ := List.exists_cons_of_ne_nil hrest
      exact absurd (hsome.trans (congrArg some hcons)) (hnone c more)

def Annotation.KeepsUnknown (a b : Annotation) : Prop :=
  ∀ (i : Nat) (name : String) (v : AnnotationValue), a.elements[i]? = some (name, v) →
    isKnownElement a.desc name = false → b.elements[i]? = some (name, v)

theorem NodeFrame.keepsUnknown {a b : Annotation} (h : NodeFrame a b) : a.KeepsUnknown b := by
  intro i name v hi hname
  have hfixed : isEditable a.desc name = false ∧
      ¬(a.desc = Vocabulary.descType ∧ name = "args") := by
    refine ⟨?_, ?_⟩
    · rw [← Bool.not_eq_true]
      intro heditable
      rw [isKnownElement_of_isEditable heditable] at hname
      cases hname
    · rintro ⟨hdesc, rfl⟩
      rw [hdesc] at hname
      revert hname
      decide
  cases h with
  | elements h =>
    rw [elementsFrame_iff, List.forall₂_iff_get] at h
    obtain ⟨hlength, hframe⟩ := h
    obtain ⟨hlt, hget⟩ := List.getElem?_eq_some_iff.1 hi
    have helement := hframe i hlt (hlength ▸ hlt)
    rw [List.get_eq_getElem, List.get_eq_getElem, hget] at helement
    refine List.getElem?_eq_some_iff.2 ⟨hlength ▸ hlt, ?_⟩
    exact Prod.ext helement.1 (helement.2.eq_of_fixed hfixed.1 hfixed.2)

theorem GoverningFrame.keepsUnknown {a b : Annotation} (h : GoverningFrame a b) :
    a.KeepsUnknown b := by
  cases h with
  | inPlace h => exact h.keepsUnknown
  | targeted _ _ _ v h =>
    intro i name w hi hname
    refine h.keepsUnknown i name w ?_ hname
    exact (List.getElem?_append_left (List.getElem?_eq_some_iff.1 hi).1).trans hi

theorem DeclarationFrame.keepsUnknown {a b : Annotation} (h : DeclarationFrame a b) :
    a.KeepsUnknown b := by
  cases h with
  | same => exact (NodeFrame.same a).keepsUnknown
  | mixin _ h => exact h.keepsUnknown

/-- An annotation that no rule governs is not touched. -/
theorem MemberFrame.others {mixin : String} {m n : Member} (h : MemberFrame mixin m n) :
    List.Forall₂ (fun a b => governing? (m.ref mixin) a.desc = none → b = a) m.annotations
      n.annotations := by
  cases h with
  | same m => exact List.forall₂_same.2 fun a _ _ => rfl
  | governed name desc before after ha hothers h =>
    refine List.rel_append (List.forall₂_same.2 fun x _ _ => rfl) (.cons (fun hnone => ?_) ?_)
    · cases ha.symm.trans hnone
    · exact List.forall₂_same.2 fun x _ _ => rfl

/-- It reports no gap, or its answer is `a`. -/
def Attempt.KeepsAtGap {α : Type} (a : α) (x : Attempt α) : Prop :=
  Event.gaps x.events = [] ∨ ∀ b, x.result = .ok b → b = a

def Edit.KeepsAtGap {α : Type} (a : α) (d : Edit α) : Prop :=
  Event.gaps d.events = [] ∨ d.value = a

theorem Attempt.KeepsAtGap.bind {α β : Type} {a : α} {x : Attempt β} {f : β → Attempt α}
    (hx : Event.gaps x.events = []) (hf : ∀ b, (f b).KeepsAtGap a) :
    (x.bind f).KeepsAtGap a := by
  obtain ⟨events, result⟩ := x
  have hevents : Event.gaps events = [] := hx
  cases result with
  | error e => exact .inl hx
  | ok b =>
    refine (hf b).imp_left fun hb => ?_
    rw [Attempt.bind, Event.gaps_append, hevents, hb]
    rfl

theorem Edit.KeepsAtGap.replace {α β : Type} {b : β} {x : Attempt β} {k : β → α}
    (hx : x.KeepsAtGap b) : (Edit.replace x (k b) k).KeepsAtGap (k b) := by
  obtain ⟨events, result⟩ := x
  cases result with
  | error e => exact .inr rfl
  | ok c =>
    rcases hx with hgaps | hkeeps
    · refine .inl ?_
      have hevents : Event.gaps events = [] := hgaps
      rw [Edit.replace, Edit.given, Event.gaps_append, hevents]
      rfl
    · exact .inr (congrArg k (hkeeps c rfl))

namespace Remapper

variable (r : Remapper)

section Selectors

variable (location text : String) (filter : DescriptorFilter)

theorem leaveUnresolved_keepsAtGap (scope : List String) :
    (r.leaveUnresolved location text scope).KeepsAtGap text := by
  refine .inr fun out h => ?_
  obtain ⟨-, -, h⟩ := Attempt.bind_eq_ok.1 h
  cases h
  rfl

theorem canonical_ungapped (m : MemberRef) :
    Event.gaps (r.canonical location m).events = [] :=
  Congruence.ungapped.ofExcept location (r.naming.canonical m)

theorem agreeOnCandidates_ungapped (candidates : List MemberRef) :
    Event.gaps (r.agreeOnCandidates location text candidates).events = [] := by
  have hvote (m : MemberRef) : Congruence.ungapped.attempts
      ((r.canonical location m).bind fun s => .answer (some s))
      ((r.canonical location m).bind fun s => .answer (some s)) :=
    Congruence.ungapped.bind (y := r.canonical location m) (r.canonical_ungapped location m)
      fun _ => rfl
  exact Congruence.ungapped.agree hvote location _ candidates

/-- A selector that is not resolved keeps its text. -/
theorem resolveSelector_keepsAtGap (t : Option TargetSet) :
    (r.resolveSelector location text t filter).KeepsAtGap text := by
  rw [resolveSelector]
  split
  · exact .inl rfl
  · next s _ =>
    split
    · next m _ => exact .bind (r.canonical_ungapped location m) fun _ => .inl rfl
    · next targets _ =>
      have hcandidates := Congruence.ungapped.inferCandidates (n := r.naming) (h := r.hierarchy)
        (p := r.policy) (q := r.policy) s filter (scopeOf s targets)
      refine .bind hcandidates fun candidates => ?_
      refine .bind (r.agreeOnCandidates_ungapped location text candidates) fun found => ?_
      cases found with
      | some resolved => exact .inl rfl
      | none => exact r.leaveUnresolved_keepsAtGap location text _
    · exact r.leaveUnresolved_keepsAtGap location text _

theorem remapSelectorValue_keepsAtGap (t : TargetSet) :
    (r.remapSelectorValue location t filter (.string text)).KeepsAtGap (.string text) :=
  .replace (r.resolveSelector_keepsAtGap location text filter t)

theorem remapAtTarget_keepsAtGap (node : Annotation) :
    (r.remapAtTarget location node).KeepsAtGap node := by
  rw [remapAtTarget]
  split
  · exact .inl rfl
  · next text htarget =>
    have hset : node.set "target" (.string text) = node :=
      set_eq_self_iff.2 htarget
    have hkeeps := r.resolveSelector_keepsAtGap (insideAt "@At.target" location) text .any none
    have hreplace := Edit.KeepsAtGap.replace (k := fun s => node.set "target" (.string s)) hkeeps
    rw [hset] at hreplace
    exact hreplace
  · exact .inl rfl

theorem editInvokeEntry_keepsAtGap :
    (InjectionPoint.editInvokeEntry r location text).KeepsAtGap text := by
  rw [InjectionPoint.editInvokeEntry]
  split
  · exact .inl rfl
  · exact .replace (k := id) (r.resolveSelector_keepsAtGap location text .any none)

end Selectors

section Shadow

variable {r} {t : TargetSet} {site : Site}

theorem nameAcross_of_undeclared {name : String} (label : String)
    (h : ∀ target ∈ t.classes, r.hierarchy.declares target name site.member.desc = false) :
    (r.nameAcross site label name t .declaringTargets).result = .ok none := by
  refine agree_eq_ok.2 ⟨fun target htarget => .inl ?_, .inl rfl⟩
  rw [nameIn, declares, h target htarget]
  rfl

/-- Without a target that declares the member, all that is left to do is to report it. -/
theorem settleShadow_silent {lead : String} (h : ∀ target ∈ t.classes,
    r.hierarchy.declares target (shadowedName lead site.member.name) site.member.desc = false) :
    (r.settleShadow site t lead).Silent := by
  have hsilent : (r.nameAcross site "@Shadow" (shadowedName lead site.member.name) t
      .declaringTargets).Silent :=
    (coupled_silent r t).memberName site "@Shadow" _ _
  have hname := nameAcross_of_undeclared "@Shadow" h
  rw [shadowedName] at hsilent hname
  rw [Attempt.Silent] at hsilent
  rw [Attempt.Silent, settleShadow, Attempt.bind, hname, Event.renames_append, hsilent]
  rfl

/-- The lead is no element that a rule edits. -/
theorem shadowLead_eq {a b : Annotation} (hdesc : a.desc = Vocabulary.shadow)
    (h : NodeFrame a b) : shadowLead b = shadowLead a := by
  cases h with
  | elements h =>
    rw [elementsFrame_iff] at h
    unfold shadowLead
    dsimp only at hdesc ⊢
    congr 2
    induction h with
    | nil => rfl
    | @cons e f _ _ hef _ ih =>
      have hstated : (if f.1 = "prefix" then f.2.string? else none) =
          if e.1 = "prefix" then e.2.string? else none := by
        rw [hef.1]
        by_cases hname : e.1 = "prefix"
        · have helement := hef.2
          rw [hname, hdesc] at helement
          rw [helement.eq_of_fixed (by decide) (by decide)]
        · rw [if_neg hname, if_neg hname]
      rw [List.filterMap_cons, List.filterMap_cons, hstated, ih]

theorem remapShadow_silent {node : Annotation} (hdesc : node.desc = Vocabulary.shadow)
    (h : ∀ target ∈ t.classes, r.hierarchy.declares target
      (shadowedName (shadowLead node) site.member.name) site.member.desc = false) :
    (r.remapShadow site t node).Silent := by
  have hframe : NodeFrame node (node.editElements (r.remapShadowElement site t)).value := by
    refine .editElements fun name v => ?_
    rw [hdesc]
    exact r.remapShadowElement_frame site t name v
  have hsilent : (node.editElements (r.remapShadowElement site t)).Silent :=
    Congruence.silent.editElements ((coupled_silent r t).remapShadowElement site) node
  rw [← shadowLead_eq hdesc hframe] at h
  rw [remapShadow]
  generalize node.editElements (r.remapShadowElement site t) = d at h hsilent
  cases hfault : d.fault with
  | some x =>
    rw [Edit.andThen_of_some hfault]
    exact hsilent
  | none =>
    have hcheck : Event.renames (Edit.check (r.settleShadow site t (shadowLead d.value))
        d.value).events = [] :=
      Congruence.silent.check (y := r.settleShadow site t (shadowLead d.value)) d.value
        (settleShadow_silent h)
    rw [Edit.Silent] at hsilent
    rw [Edit.andThen_of_none hfault, Edit.Silent, Event.renames_append, hsilent, hcheck]
    rfl

/-- Whatever annotation governs a member is the only one that its rules see. -/
theorem remapMain_silent (site : Site) {without : Attempt Unit}
    {f : AnnotationKind → Annotation → Edit Annotation} {annotations : List Annotation}
    {a : Annotation} {kind : AnnotationKind} (ha : a ∈ annotations)
    (hkind : governing? site.member a.desc = some kind) (hf : (f kind a).Silent) :
    (r.remapMain site without f annotations).Silent := by
  have hclassify : (r.classify site.member annotations).Silent :=
    (coupled_silent r .empty).classify site.member 0 none annotations
  rw [Attempt.Silent] at hclassify
  rw [remapMain, Edit.given]
  split
  next found hfound =>
    obtain ⟨before, after, rfl, rfl⟩ := classifyFrom_of_governing ha hkind hfound
    dsimp only
    rw [Nat.zero_add, Edit.atIndex_append]
    rw [Edit.Silent] at hf
    rw [Edit.Silent, Event.renames_append, hclassify, Edit.map, hf]
    rfl
  · exact hclassify

end Shadow

end Remapper

namespace DescReference

variable {r : Remapper} {location : String} {mode : DescMode} {node : Annotation}
  {d : DescReference}

structure Untyped (node : Annotation) (d : DescReference) : Prop where
  result : d.result = none
  desc : d.desc = "V"
  value : node.get? "value" = some (.string d.name)
  owner : ∀ owner, d.owner = some owner → node.get? "owner" = some (.type (.object owner))

theorem untyped_of_read (hret : node.get? "ret" = none)
    (h : (read r location .field node).result = .ok d) : Untyped node d := by
  have hstates := (read_eq_ok.1 h).2.2
  have hresult : d.result = none := by
    have hnone := hstates.result
    rw [hret] at hnone
    cases hd : d.result with
    | none => rfl
    | some t =>
      rw [hd] at hnone
      cases hnone
  refine ⟨hresult, ?_, hstates.name, fun owner howner => ?_⟩
  · have htypes : d.desc = d.result.getD "V" := hstates.types
    rw [htypes, hresult]
    rfl
  · rw [hstates.owner, howner]
    rfl

/-- A name and an owner that are written into the node leave it as it is only if they are those
that it holds. -/
theorem Untyped.renamed_eq_iff (h : Untyped node d) (n : Naming) (name : String) :
    d.renameOwner n (node.set "value" (.string name)) = node ↔
      name = d.name ∧ ∀ owner, d.owner = some owner → n.className owner = owner := by
  have hname : node.set "value" (.string name) = node ↔ name = d.name := by
    rw [set_eq_self_iff, h.value]
    simp [eq_comm]
  rw [renameOwner]
  cases howner : d.owner with
  | none => simp [hname]
  | some owner =>
    have hold := h.owner owner howner
    constructor
    · intro heq
      have hvalue := congrArg (fun a => a.get? "value") heq
      dsimp only at hvalue
      rw [get?_set_of_ne (by decide), get?_set_self, h.value] at hvalue
      cases hvalue
      rw [hname.2 rfl, set_eq_self_iff, hold] at heq
      refine ⟨rfl, ?_⟩
      rintro _ ⟨⟩
      exact (ClassLiteral.object_inj.1 (AnnotationValue.type.inj (Option.some.inj heq))).symm
    · rintro ⟨rfl, hclass⟩
      dsimp only
      rw [hname.2 rfl, set_eq_self_iff, hold, hclass owner rfl]

end DescReference

/-- A field @Desc without a type comes out as it was given only if its name stands for itself in
every owner and its own owner keeps its name. -/
theorem Remapper.remapDesc_untyped (r : Remapper) {location : String} {t : TargetSet}
    {node : Annotation} (hret : node.get? "ret" = none)
    (hfault : (r.remapDesc location t .field node).fault = none) :
    ∃ d, (DescReference.read r location .field node).result = .ok d ∧
      ((r.remapDesc location t .field node).value = node ↔
        (∀ owner ∈ d.owners t, r.naming.field ⟨owner, d.name, "V"⟩ = d.name) ∧
          ∀ owner, d.owner = some owner → r.naming.className owner = owner) := by
  obtain ⟨d, hread, hnamed⟩ := Edit.given_fault_eq_none.1 hfault
  obtain ⟨name, hname, -⟩ := Edit.given_fault_eq_none.1 hnamed
  have huntyped := DescReference.untyped_of_read hret hread
  have htypes : d.renameTypes r.naming .field (node.set "value" (.string name)) =
      .ok (node.set "value" (.string name)) := by
    simp [DescReference.renameTypes, huntyped.result]
  have hvalue : (r.remapDesc location t .field node).value =
      d.renameOwner r.naming (node.set "value" (.string name)) := by
    rw [remapDesc, Edit.given_value hread, Edit.given_value hname]
    dsimp only
    rw [htypes]
    rfl
  refine ⟨d, hread, ?_⟩
  rw [hvalue, huntyped.renamed_eq_iff]
  obtain ⟨hne, hall⟩ := DescReference.newName_eq_ok.1 hname
  rw [huntyped.desc] at hall
  refine and_congr_left' ⟨?_, fun hself => ?_⟩
  · rintro rfl
    exact hall
  · obtain ⟨owner, howner⟩ := List.exists_mem_of_ne_nil _ hne
    exact (hall owner howner).symm.trans (hself owner howner)

/-- What a run leaves as it is when it passes over a gap. -/
structure GapFrame (r : Remapper) : Prop where
  selector : ∀ location text t filter,
    (r.resolveSelector location text t filter).KeepsAtGap text
  selectorValue : ∀ location text t filter,
    (r.remapSelectorValue location t filter (.string text)).KeepsAtGap (.string text)
  atTarget : ∀ location node, (r.remapAtTarget location node).KeepsAtGap node
  invokeEntry : ∀ location entry, (InjectionPoint.editInvokeEntry r location entry).KeepsAtGap entry
  fieldEntry : ∀ location entry, (InjectionPoint.editFieldEntry r location entry).value = entry
  pointElements : ∀ location value node, r.policy.point? value = none →
    (r.remapAtArguments location value node).value = node
  classElements : ∀ (mixin : String) (a : Annotation),
    a.KeepsUnknown (Declaration.remap r mixin a).value
  methodElements : ∀ site t (kind : AnnotationKind) (a : Annotation), a.desc = kind.descriptor →
    a.KeepsUnknown (r.remapGoverningMethod site t kind a).value
  fieldElements : ∀ site t (kind : AnnotationKind) (a : Annotation), a.desc = kind.descriptor →
    a.KeepsUnknown (r.remapGoverningField site t kind a).value
  atElements : ∀ location t (node : Annotation),
    node.KeepsUnknown (r.remapAtIn location t node).value
  sliceElements : ∀ owner member ordinal t (node : Annotation),
    node.KeepsUnknown (r.remapSlice owner member ordinal t node).value
  descElements : ∀ location t mode (node : Annotation),
    node.KeepsUnknown (r.remapDesc location t mode node).value
  classAnnotations : ∀ (mixin : String) (a : Annotation), Declaration.isMixin a = false →
    (Declaration.remap r mixin a).value = a
  methodAnnotations : ∀ mixin interfaces t (m : Member), List.Forall₂
    (fun a b => AnnotationKind.ofMember? (m.ref mixin) a.desc = none → b = a) m.annotations
    (r.remapMethod mixin interfaces t m).value.annotations
  fieldAnnotations : ∀ mixin t (m : Member), List.Forall₂
    (fun a b => AnnotationKind.ofMember? (m.ref mixin) a.desc = none → b = a) m.annotations
    (r.remapField mixin t m).value.annotations
  shadowedMethod : ∀ mixin interfaces t (m : Member), ∀ a ∈ m.annotations,
    governing? (m.ref mixin) a.desc = some .shadow →
    (∀ target ∈ t.classes,
      r.hierarchy.declares target (shadowedName (shadowLead a) m.name) m.desc = false) →
    Event.renames (r.remapMethod mixin interfaces t m).events = []
  shadowedField : ∀ mixin t (m : Member), ∀ a ∈ m.annotations,
    governing? (m.ref mixin) a.desc = some .shadow →
    (∀ target ∈ t.classes,
      r.hierarchy.declares target (shadowedName (shadowLead a) m.name) m.desc = false) →
    Event.renames (r.remapField mixin t m).events = []
  untypedField : ∀ location t (node : Annotation), node.get? "ret" = none →
    (r.remapDesc location t .field node).fault = none →
    ∃ d, (DescReference.read r location .field node).result = .ok d ∧
      ((r.remapDesc location t .field node).value = node ↔
        (∀ owner ∈ d.owners t, r.naming.field ⟨owner, d.name, "V"⟩ = d.name) ∧
          ∀ owner, d.owner = some owner → r.naming.className owner = owner)

theorem governing?_of_unknown {member : MemberRef} {desc : String}
    (h : AnnotationKind.ofMember? member desc = none) : governing? member desc = none := by
  rw [governing?, h]
  split
  · rfl
  · rfl

/-- A gap that is passed over leaves the affected value as it is, with one exception: a field @Desc
without a type is renamed as if its type were void, so its name or its owner may change. -/
theorem tolerated_gaps (r : Remapper) : GapFrame r where
  selector location text t filter := r.resolveSelector_keepsAtGap location text filter t
  selectorValue location text t filter := r.remapSelectorValue_keepsAtGap location text filter t
  atTarget := r.remapAtTarget_keepsAtGap
  invokeEntry := r.editInvokeEntry_keepsAtGap
  fieldEntry location entry := by
    rw [InjectionPoint.editFieldEntry]
    split
    · rfl
    · exact Edit.value_check _ entry
  pointElements location value node h := by
    rw [Remapper.remapAtArguments, h]
    exact Edit.value_check _ node
  classElements mixin a := (Declaration.remap_frame r mixin a).keepsUnknown
  methodElements site t kind a hdesc := (r.remapGoverningMethod_frame site t hdesc).keepsUnknown
  fieldElements site t kind a hdesc := (r.remapGoverningField_frame site t hdesc).keepsUnknown
  atElements location t node := (r.remapAtIn_frame location t node).keepsUnknown
  sliceElements owner member ordinal t node :=
    (r.remapSlice_frame t owner member ordinal node).keepsUnknown
  descElements location t mode node := (r.remapDesc_frame location t mode node).keepsUnknown
  classAnnotations mixin a h := (Declaration.remap_other r mixin h).1
  methodAnnotations mixin interfaces t m :=
    (r.remapMethod_frame mixin interfaces t m).others.imp fun _ _ h hunknown =>
      h (governing?_of_unknown hunknown)
  fieldAnnotations mixin t m :=
    (r.remapField_frame mixin t m).others.imp fun _ _ h hunknown =>
      h (governing?_of_unknown hunknown)
  shadowedMethod mixin interfaces t m a ha hkind h :=
    Remapper.remapMain_silent ⟨m.ref mixin, interfaces⟩ ha hkind
      (Remapper.remapShadow_silent (descriptor_of_governing? hkind).symm h)
  shadowedField mixin t m a ha hkind h :=
    Remapper.remapMain_silent ⟨m.ref mixin, []⟩ ha hkind
      (Remapper.remapShadow_silent (descriptor_of_governing? hkind).symm h)
  untypedField _ _ _ hret hfault := r.remapDesc_untyped hret hfault

/-- The gap is passed over, and the reference is left with its owner renamed and its name not. -/
theorem untyped_field_half_renamed :
    let r : Remapper := ⟨(MappingTable.empty.withClass "com/example/T" "a/a").naming, .empty,
      .lenient⟩
    let node : Annotation := ⟨Vocabulary.descType,
      [("value", .string "count"), ("owner", .type ⟨"Lcom/example/T;"⟩)]⟩
    let run := r.remapDesc "" (.single "com/example/T") .field node
    node.get? "ret" = none ∧ run.fault = none ∧ Event.gaps run.events = [⟨"", .descFieldType⟩] ∧
      run.value ≠ node := by
  intro r node run
  refine ⟨rfl, rfl, by decide +kernel, fun h => ?_⟩
  have howner := congrArg (fun a => (a.get? "owner").bind AnnotationValue.type?) h
  revert howner
  decide +kernel

end MixinNaming
