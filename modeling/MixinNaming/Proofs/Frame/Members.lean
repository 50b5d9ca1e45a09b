import MixinNaming.ClassPass
import MixinNaming.Proofs.Frame.Injection
/-! A member keeps its name and its descriptor, and of its annotations at most the governing one is
edited, if there is a single one. -/
namespace MixinNaming

open Edit

/-- A governing annotation before and after. A @CanonicalOverwrite that states no target may gain
one at its end. -/
inductive GoverningFrame : Annotation → Annotation → Prop where
  | inPlace {a b : Annotation} (h : NodeFrame a b) : GoverningFrame a b
  | targeted {a b : Annotation} (hdesc : a.desc = Vocabulary.canonicalOverwrite)
      (hmethod : a.contains "method" = false) (htarget : a.contains "target" = false)
      (v : AnnotationValue) (h : NodeFrame (a.add "target" v) b) : GoverningFrame a b

theorem GoverningFrame.desc_eq {a b : Annotation} (h : GoverningFrame a b) : b.desc = a.desc := by
  cases h with
  | inPlace h => exact h.desc_eq
  | targeted _ _ _ _ h => exact h.desc_eq

theorem RuleSet.remap_frame (kind : InjectorKind) (r : Remapper) (h : Handler) {node : Annotation}
    (hdesc : node.desc = kind.descriptor) :
    GoverningFrame node (kind.rules.remap r h node).value := by
  rw [remap]
  have hhooks := applyHooks_value h kind.rules.hooks node
  generalize applyHooks h kind.rules.hooks node = x at hhooks ⊢
  have hx : x.value.desc = kind.descriptor := by
    rcases hhooks with heq | ⟨-, -, -, d, heq⟩
    · rw [heq, hdesc]
    · rw [heq]
      exact hdesc
  have hlast : NodeFrame x.value (x.andThen fun node =>
      node.editElements (kind.rules.remapElement r h node.desc)).value := by
    refine rel_andThen NodeFrame.trans (.same x.value) fun edited hedited => ?_
    refine .editElements fun name v => ?_
    rw [hedited.desc_eq.trans hx]
    exact remapElement_frame kind r h name v
  rcases hhooks with heq | ⟨hhook, hmethod, htarget, d, heq⟩
  · rw [heq] at hlast
    exact .inPlace hlast
  · rw [heq] at hlast
    obtain rfl := (implicitTarget_mem kind).1 hhook
    exact .targeted hdesc hmethod htarget (.nested d) hlast

namespace Remapper

variable (r : Remapper) (site : Site) (t : TargetSet)

theorem remapAliases_frame (label : String) (v : AnnotationValue) :
    ValueFrame v (r.remapAliases site label t v).value := by
  rw [remapAliases]
  split
  · exact .same v
  · next aliases haliases => exact .withStrings haliases (length_each _ aliases)

theorem remapShadowElement_frame (name : String) (v : AnnotationValue) :
    ElementFrame Vocabulary.shadow name v (r.remapShadowElement site t name v).value := by
  unfold remapShadowElement
  split
  · split
    · exact .fixed _ _ _
    · exact .fixed _ _ _
  · split
    · next hname =>
      rw [hname]
      exact .edited (by decide) (r.remapAliases_frame site t _ v)
    · rw [value_check]
      exact .fixed _ _ _

theorem remapShadow_frame {node : Annotation} (hdesc : node.desc = Vocabulary.shadow) :
    NodeFrame node (r.remapShadow site t node).value := by
  rw [remapShadow]
  refine rel_andThen NodeFrame.trans (.editElements fun name v => ?_) fun edited _ => ?_
  · rw [hdesc]
    exact r.remapShadowElement_frame site t name v
  · rw [value_check]
    exact .same edited

theorem remapOverwrite_frame {node : Annotation} (hdesc : node.desc = Vocabulary.overwrite) :
    NodeFrame node (r.remapOverwrite site t node).value := by
  rw [remapOverwrite]
  refine rel_andThen NodeFrame.trans (.editElements fun name v => ?_) fun edited _ => ?_
  · rw [hdesc, remapOverwriteElement]
    split
    · next hname =>
      rw [hname]
      exact .edited (by decide) (r.remapAliases_frame site t _ v)
    · split
      · exact .fixed _ _ _
      · rw [value_check]
        exact .fixed _ _ _
  · rw [value_check]
    exact .same edited

theorem remapUnique_frame (node : Annotation) :
    NodeFrame node (r.remapUnique site node).value := by
  rw [remapUnique, value_check]
  exact .same node

theorem remapGoverningMethod_frame {kind : AnnotationKind} {node : Annotation}
    (hdesc : node.desc = kind.descriptor) :
    GoverningFrame node (r.remapGoverningMethod site t kind node).value := by
  cases kind with
  | shadow => exact .inPlace (r.remapShadow_frame site t hdesc)
  | unique => exact .inPlace (r.remapUnique_frame site node)
  | overwrite => exact .inPlace (r.remapOverwrite_frame site t hdesc)
  | injector kind => exact RuleSet.remap_frame kind r _ hdesc
  | final => exact .inPlace (.same node)
  | mutable => exact .inPlace (.same node)

theorem remapGoverningField_frame {kind : AnnotationKind} {node : Annotation}
    (hdesc : node.desc = kind.descriptor) :
    GoverningFrame node (r.remapGoverningField site t kind node).value := by
  cases kind with
  | shadow => exact .inPlace (r.remapShadow_frame site t hdesc)
  | unique => exact .inPlace (r.remapUnique_frame site node)
  | _ => exact .inPlace (.same node)

end Remapper

def governing? (member : MemberRef) (desc : String) : Option AnnotationKind :=
  if Vocabulary.isMemberNamespace desc then
    (AnnotationKind.ofMember? member desc).filter AnnotationKind.isMain
  else none

theorem descriptor_of_governing? {member : MemberRef} {desc : String} {kind : AnnotationKind}
    (h : governing? member desc = some kind) : kind.descriptor = desc := by
  rw [governing?] at h
  split at h
  · obtain ⟨h, -⟩ := Option.filter_eq_some_iff.1 h
    obtain ⟨h, -⟩ := Option.filter_eq_some_iff.1 h
    simpa using List.find?_some h
  · cases h

section

variable {r : Remapper} {member : MemberRef} {index : Nat} {main found : Option Governing}

theorem classifyFrom_cons_eq_ok {a : Annotation} {rest : List Annotation}
    (h : (r.classifyFrom member index main (a :: rest)).result = .ok found) :
    (governing? member a.desc = none ∧
        (r.classifyFrom member (index + 1) main rest).result = .ok found) ∨
      ∃ kind, governing? member a.desc = some kind ∧ main = none ∧
        (r.classifyFrom member (index + 1) (some ⟨index, kind⟩) rest).result = .ok found := by
  rw [Remapper.classifyFrom] at h
  rw [governing?]
  by_cases hnamespace : Vocabulary.isMemberNamespace a.desc = true
  · simp only [hnamespace, Bool.not_true, Bool.false_eq_true, if_false, if_true] at h ⊢
    cases hkind : AnnotationKind.ofMember? member a.desc with
    | none =>
      rw [hkind] at h
      obtain ⟨-, -, h⟩ := Attempt.bind_eq_ok.1 h
      exact .inl ⟨rfl, h⟩
    | some kind =>
      rw [hkind] at h
      by_cases hmarker : kind.isMarker = true
      · simp only [hmarker, if_true] at h
        exact .inl ⟨by simp [AnnotationKind.isMain, hmarker], h⟩
      · simp only [hmarker] at h
        have hmain : (some kind).filter AnnotationKind.isMain = some kind := by
          simp [AnnotationKind.isMain, hmarker]
        cases main with
        | none => exact .inr ⟨kind, hmain, rfl, h⟩
        | some first => cases h
  · simp only [hnamespace] at h ⊢
    exact .inl ⟨rfl, h⟩

/-- A classification that succeeds has found all annotations that govern the member. -/
theorem classifyFrom_eq_ok {annotations : List Annotation}
    (h : (r.classifyFrom member index main annotations).result = .ok found) :
    (found = main ∧ ∀ a ∈ annotations, governing? member a.desc = none) ∨
      main = none ∧ ∃ before a after kind, annotations = before ++ a :: after ∧
        governing? member a.desc = some kind ∧ found = some ⟨index + before.length, kind⟩ ∧
          ∀ x ∈ before ++ after, governing? member x.desc = none := by
  induction annotations generalizing index main with
  | nil =>
    cases h
    exact .inl ⟨rfl, fun a ha => by cases ha⟩
  | cons a rest ih =>
    rcases classifyFrom_cons_eq_ok h with ⟨ha, hlater⟩ | ⟨kind, ha, rfl, hlater⟩
    · rcases ih hlater with ⟨rfl, hrest⟩ | ⟨rfl, before, b, after, kind, rfl, hb, rfl, hothers⟩
      · exact .inl ⟨rfl, List.forall_mem_cons.2 ⟨ha, hrest⟩⟩
      · refine .inr ⟨rfl, a :: before, b, after, kind, rfl, hb, ?_, ?_⟩
        · rw [List.length_cons]
          congr 2
          omega
        · exact List.forall_mem_cons.2 ⟨ha, hothers⟩
    · rcases ih hlater with ⟨rfl, hrest⟩ | ⟨hmain, -⟩
      · exact .inr ⟨rfl, [], a, rest, kind, rfl, ha, rfl, hrest⟩
      · cases hmain

/-- An annotation that governs the member is the one that a classification finds. -/
theorem classifyFrom_of_governing {annotations : List Annotation} {a : Annotation}
    {kind : AnnotationKind} (ha : a ∈ annotations)
    (hkind : governing? member a.desc = some kind)
    (h : (r.classifyFrom member index main annotations).result = .ok found) :
    ∃ before after, annotations = before ++ a :: after ∧
      found = some ⟨index + before.length, kind⟩ := by
  rcases classifyFrom_eq_ok h with ⟨-, hnone⟩ |
    ⟨-, before, b, after, kind', rfl, hb, rfl, hothers⟩
  · cases hkind.symm.trans (hnone a ha)
  · have hab : a = b := by
      rcases List.mem_append.1 ha with hbefore | hafter
      · cases hkind.symm.trans (hothers a (List.mem_append_left after hbefore))
      · rcases List.mem_cons.1 hafter with hab | hafter
        · exact hab
        · cases hkind.symm.trans (hothers a (List.mem_append_right before hafter))
    subst hab
    cases hkind.symm.trans hb
    exact ⟨before, after, rfl, rfl⟩

end

inductive MemberFrame (mixin : String) : Member → Member → Prop where
  | same (m : Member) : MemberFrame mixin m m
  | governed (name desc : String) (before after : List Annotation) {a b : Annotation}
      {kind : AnnotationKind} (ha : governing? ⟨mixin, name, desc⟩ a.desc = some kind)
      (hothers : ∀ x ∈ before ++ after, governing? ⟨mixin, name, desc⟩ x.desc = none)
      (h : GoverningFrame a b) :
      MemberFrame mixin ⟨name, desc, before ++ a :: after⟩ ⟨name, desc, before ++ b :: after⟩

theorem MemberFrame.descs_eq {mixin : String} {m n : Member} (h : MemberFrame mixin m n) :
    n.annotations.map Annotation.desc = m.annotations.map Annotation.desc := by
  cases h with
  | same _ => rfl
  | governed _ _ before after _ _ h =>
    rw [List.map_append, List.map_append, List.map_cons, List.map_cons, h.desc_eq]

theorem value_atIndex {α : Type} (f : α → Edit α) (before after : List α) (a : α) :
    (atIndex before.length f (before ++ a :: after)).value = before ++ (f a).value :: after := by
  rw [atIndex_append]
  rfl

namespace Remapper

variable (r : Remapper) (mixin : String)

/-- Whatever rules are applied, they see the one governing annotation of the member alone. -/
theorem remapMain_frame {site : Site} {name desc : String}
    (hsite : site.member = ⟨mixin, name, desc⟩) (without : Attempt Unit)
    {f : AnnotationKind → Annotation → Edit Annotation}
    (hf : ∀ (kind : AnnotationKind) (node : Annotation), node.desc = kind.descriptor →
      GoverningFrame node (f kind node).value) (annotations : List Annotation) :
    MemberFrame mixin ⟨name, desc, annotations⟩
      ⟨name, desc, (r.remapMain site without f annotations).value⟩ := by
  rw [remapMain, given]
  split
  · next found hfound =>
    rw [hsite] at hfound
    rcases classifyFrom_eq_ok hfound with ⟨rfl, -⟩ |
      ⟨-, before, a, after, kind, rfl, ha, rfl, hothers⟩
    · dsimp only
      rw [value_check]
      exact .same _
    · dsimp only
      rw [Nat.zero_add, value_atIndex]
      have hdesc := (descriptor_of_governing? ha).symm
      exact .governed name desc before after ha hothers (hf kind a hdesc)
  · exact .same _

theorem remapMethod_frame (interfaces : List String) (t : TargetSet) (m : Member) :
    MemberFrame mixin m (r.remapMethod mixin interfaces t m).value := by
  have hsite : (⟨m.ref mixin, interfaces⟩ : Site).member = ⟨mixin, m.name, m.desc⟩ := rfl
  exact r.remapMain_frame mixin hsite _ (fun _ _ => r.remapGoverningMethod_frame _ t) m.annotations

theorem remapField_frame (t : TargetSet) (m : Member) :
    MemberFrame mixin m (r.remapField mixin t m).value := by
  have hsite : (⟨m.ref mixin, []⟩ : Site).member = ⟨mixin, m.name, m.desc⟩ := rfl
  exact r.remapMain_frame mixin hsite _ (fun _ _ => r.remapGoverningField_frame _ t) m.annotations

end Remapper

end MixinNaming
