import MixinNaming.ClassPass
import MixinNaming.Proofs.Frame.Members
/-! What a run leaves of a class as it is, whatever it runs into. -/
namespace MixinNaming

inductive DeclarationFrame : Annotation → Annotation → Prop where
  | same (a : Annotation) : DeclarationFrame a a
  | mixin {a b : Annotation} (hmixin : Declaration.isMixin a = true) (h : NodeFrame a b) :
      DeclarationFrame a b

structure ClassFrame (c d : MixinClass) : Prop where
  name : d.name = c.name
  interfaces : d.interfaces = c.interfaces
  annotations : List.Forall₂ DeclarationFrame c.annotations d.annotations
  methods : List.Forall₂ (MemberFrame c.name) c.methods d.methods
  fields : List.Forall₂ (MemberFrame c.name) c.fields d.fields

namespace Declaration

theorem renameLiteral_frame (n : Naming) (mixin : String) (v : AnnotationValue) :
    ValueFrame v (renameLiteral n mixin v).value := by
  unfold renameLiteral
  split
  · next t =>
    split
    · exact .same _
    · dsimp only [Edit.keep]
      split
      · exact .type t _
      · exact .same _
  · exact .same _

theorem remapElement_frame (r : Remapper) (mixin name : String) (v : AnnotationValue) :
    ElementFrame Vocabulary.mixin name v (remapElement r mixin name v).value := by
  rw [remapElement]
  split
  · next hname =>
    rw [hname]
    refine .edited (by decide) (.withItems (Edit.forall₂_each .same fun item _ => ?_))
    exact renameLiteral_frame r.naming mixin item
  · split
    · next hname =>
      rw [hname]
      split
      · exact .fixed _ _ _
      · next texts htexts =>
        exact .edited (by decide) (.withStrings htexts (List.length_map _))
    · split
      · exact .fixed _ _ _
      · rw [Edit.value_check]
        exact .fixed _ _ _

theorem remap_frame (r : Remapper) (mixin : String) (a : Annotation) :
    DeclarationFrame a (remap r mixin a).value := by
  rw [remap]
  by_cases hmixin : isMixin a = true
  · rw [if_pos hmixin]
    refine .mixin hmixin (.editElements fun name v => ?_)
    rw [eq_of_beq hmixin]
    exact remapElement_frame r mixin name v
  · rw [if_neg hmixin]
    split
    · rw [Edit.value_check]
      exact .same a
    · exact .same a

/-- An annotation that declares no targets is not touched, and nothing is asked for its sake. -/
theorem remap_other (r : Remapper) (mixin : String) {a : Annotation} (ha : isMixin a = false) :
    (remap r mixin a).value = a ∧ Event.renames (remap r mixin a).events = [] ∧
      Event.queries (remap r mixin a).events = [] := by
  rw [remap, ha]
  by_cases hnamespace : Vocabulary.isClassNamespace a.desc = true
  · simp only [hnamespace, Bool.false_eq_true, if_false, if_true]
    refine ⟨Edit.value_check _ a, ?_⟩
    rw [Edit.check, Edit.replace, Edit.given]
    split
    · exact ⟨rfl, rfl⟩
    · exact ⟨rfl, rfl⟩
  · simp only [hnamespace, Bool.false_eq_true, if_false]
    exact ⟨rfl, rfl, rfl⟩

end Declaration

section

variable (r : Remapper) (c : MixinClass)

theorem remapMembers_frame (t : TargetSet) {annotations : List Annotation}
    (h : List.Forall₂ DeclarationFrame c.annotations annotations) :
    ClassFrame c (r.remapMembers t { c with annotations }).value := by
  have hmethods : List.Forall₂ (MemberFrame c.name) c.methods _ :=
    Edit.forall₂_each .same fun m _ => r.remapMethod_frame c.name c.interfaces t m
  have hfields : List.Forall₂ (MemberFrame c.name) c.fields _ :=
    Edit.forall₂_each .same fun m _ => r.remapField_frame c.name t m
  rw [Remapper.remapMembers]
  rcases Edit.value_andThen _ _ with heq | heq
  · rw [heq]
    exact ⟨rfl, rfl, h, hmethods, List.forall₂_same.2 fun m _ => .same m⟩
  · rw [heq]
    exact ⟨rfl, rfl, h, hmethods, hfields⟩

theorem remapClass_of_no_mixin (h : c.annotations.any Declaration.isMixin = false) :
    (r.remapClass c).value = c ∧ Event.renames (r.remapClass c).events = [] ∧
      Event.queries (r.remapClass c).events = [] := by
  have hothers : ∀ a ∈ c.annotations, Declaration.isMixin a = false := by
    simpa using List.any_eq_false.1 h
  have hvalue := Edit.forall₂_each Eq.refl fun a ha =>
    (Declaration.remap_other r c.name (hothers a ha)).1.symm
  rw [List.forall₂_eq_eq_eq] at hvalue
  have hevents := Edit.each_events
    (p := fun events => Event.renames events = [] ∧ Event.queries events = []) ⟨rfl, rfl⟩
    (fun a b ha hb => by
      rw [Event.renames_append, Event.queries_append, ha.1, ha.2, hb.1, hb.2]
      exact ⟨rfl, rfl⟩)
    fun a ha => (Declaration.remap_other r c.name (hothers a ha)).2
  rw [Remapper.remapClass, h]
  simp only [Bool.false_eq_true, if_false]
  rw [Edit.andThen_keep]
  refine ⟨?_, hevents⟩
  rw [Edit.map, ← hvalue]

/-- A run leaves everything outside its frame as it is, and all of a class that is no mixin. -/
theorem remapClass_frame :
    ClassFrame c (r.remapClass c).value ∧
      (c.annotations.any Declaration.isMixin = false →
        (r.remapClass c).value = c ∧ Event.renames (r.remapClass c).events = [] ∧
          Event.queries (r.remapClass c).events = []) := by
  refine ⟨?_, remapClass_of_no_mixin r c⟩
  have hsame : ∀ members : List Member, List.Forall₂ (MemberFrame c.name) members members :=
    fun members => List.forall₂_same.2 fun m _ => .same m
  have hannotations : List.Forall₂ DeclarationFrame c.annotations _ :=
    Edit.forall₂_each .same fun a _ => Declaration.remap_frame r c.name a
  rw [Remapper.remapClass]
  rcases Edit.value_andThen _ _ with heq | heq
  · rw [heq]
    exact ⟨rfl, rfl, hannotations, hsame c.methods, hsame c.fields⟩
  · rw [heq]
    split
    · exact remapMembers_frame r c _ hannotations
    · exact ⟨rfl, rfl, hannotations, hsame c.methods, hsame c.fields⟩

end

end MixinNaming
