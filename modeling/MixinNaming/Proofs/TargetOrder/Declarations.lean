import Mathlib.Data.List.Forall2
import MixinNaming.ClassPass
import MixinNaming.Proofs.ListPosition
import MixinNaming.Proofs.TargetOrder.Members
/-! Classes that mention the same targets in another order, or some of them more often, have the
same target set but for its order. -/
namespace MixinNaming

variable {α β γ : Type}

def AnnotationValue.SameItems (v w : AnnotationValue) : Prop := ∀ x, x ∈ v.items ↔ x ∈ w.items

namespace Declaration

/-- One element in two declarations. Only the two lists of targets may differ. -/
inductive SameElement : String × AnnotationValue → String × AnnotationValue → Prop where
  | equal (e : String × AnnotationValue) : SameElement e e
  | targets (name : String) {v w : AnnotationValue} (hname : name = "value" ∨ name = "targets")
      (hitems : v.SameItems w) : SameElement (name, v) (name, w)

inductive SameTargets : Annotation → Annotation → Prop where
  | equal (a : Annotation) : SameTargets a a
  | mixin {elements others : List (String × AnnotationValue)}
      (helements : List.Forall₂ SameElement elements others) :
      SameTargets ⟨Vocabulary.mixin, elements⟩ ⟨Vocabulary.mixin, others⟩

end Declaration

structure MixinClass.SameTargets (c d : MixinClass) : Prop where
  name : c.name = d.name
  interfaces : c.interfaces = d.interfaces
  methods : c.methods = d.methods
  fields : c.fields = d.fields
  annotations : List.Forall₂ Declaration.SameTargets c.annotations d.annotations

theorem TargetSet.mem_ofList {names : List String} {c : String} :
    c ∈ (ofList names).classes ↔ c ∈ names := by
  have hfold : ∀ t : TargetSet, c ∈ (names.foldl insert t).classes ↔ c ∈ t.classes ∨ c ∈ names := by
    induction names with
    | nil =>
      intro t
      simp
    | cons d rest ih =>
      intro t
      rw [List.foldl_cons, ih, mem_insert, List.mem_cons, or_assoc, or_left_comm]
  rw [ofList, hfold]
  simp

theorem mem_flatMap_congr {R : α → β → Prop} {f : α → List γ} {g : β → List γ} {as : List α}
    {bs : List β} (h : List.Forall₂ R as bs) (hfg : ∀ a b, R a b → ∀ c, c ∈ f a ↔ c ∈ g b)
    (c : γ) : c ∈ as.flatMap f ↔ c ∈ bs.flatMap g := by
  induction h with
  | nil => rfl
  | cons hab _ ih => rw [List.flatMap_cons, List.flatMap_cons, List.mem_append, List.mem_append,
      hfg _ _ hab, ih]

namespace AnnotationValue.SameItems

variable {v w : AnnotationValue}

theorem symm (h : v.SameItems w) : w.SameItems v := fun x => (h x).symm

theorem strings? (h : v.SameItems w) {texts : List String} (hv : v.strings? = some texts) :
    ∃ others, w.strings? = some others ∧ ∀ s, s ∈ texts ↔ s ∈ others := by
  have hall := exists_strings?.1 ⟨texts, hv⟩
  obtain ⟨others, hw⟩ := exists_strings?.2 fun x hx => hall x ((h x).2 hx)
  refine ⟨others, hw, fun s => ?_⟩
  rw [mem_of_strings? hv, mem_of_strings? hw]
  exact h _

end AnnotationValue.SameItems

namespace Declaration

theorem SameTargets.isMixin_eq {a b : Annotation} (h : SameTargets a b) :
    isMixin a = isMixin b := by
  cases h with
  | equal a => rfl
  | mixin _ => rfl

theorem any_isMixin_eq {as bs : List Annotation} (h : List.Forall₂ SameTargets as bs) :
    as.any isMixin = bs.any isMixin := by
  induction h with
  | nil => rfl
  | cons hab _ ih => rw [List.any_cons, List.any_cons, hab.isMixin_eq, ih]

theorem mem_elementTargets {e f : String × AnnotationValue} (h : SameElement e f) (c : String) :
    c ∈ elementTargets e ↔ c ∈ elementTargets f := by
  cases h with
  | equal e => rfl
  | targets name hname hitems =>
    rename_i v w
    rw [elementTargets, elementTargets]
    rcases hname with rfl | rfl
    · simp only [if_true, List.mem_filterMap, hitems _]
    · simp only [String.reduceEq, if_false, if_true, List.mem_map]
      cases hv : v.strings? with
      | some texts =>
        obtain ⟨others, hw, hmem⟩ := hitems.strings? hv
        simp only [hw, Option.getD_some, hmem]
      | none =>
        cases hw : w.strings? with
        | none => rfl
        | some others =>
          obtain ⟨texts, hv', -⟩ := hitems.symm.strings? hw
          rw [hv'] at hv
          cases hv

theorem mem_targetNames {as bs : List Annotation} (h : List.Forall₂ SameTargets as bs)
    (c : String) : c ∈ targetNames as ↔ c ∈ targetNames bs := by
  have hfilter : List.Forall₂ SameTargets (as.filter isMixin) (bs.filter isMixin) :=
    List.rel_filter (fun _ _ hab => by simp only [hab.isMixin_eq]) h
  refine mem_flatMap_congr hfilter (fun a b hab c => ?_) c
  cases hab with
  | equal a => rfl
  | mixin helements => exact mem_flatMap_congr helements (fun _ _ => mem_elementTargets) c

theorem targets_sameClasses {as bs : List Annotation} (h : List.Forall₂ SameTargets as bs) :
    (targets as).SameClasses (targets bs) := by
  intro c
  rw [targets, targets, TargetSet.mem_ofList, TargetSet.mem_ofList]
  exact mem_targetNames h c

end Declaration

end MixinNaming
