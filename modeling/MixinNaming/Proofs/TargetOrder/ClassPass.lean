import MixinNaming.Proofs.TargetOrder.Declarations
/-! The order of the targets is not seen from outside: a class and the same class with its targets
mentioned in another order, or more than once, end alike. -/
namespace MixinNaming

variable {α β γ δ : Type}

structure Edit.EndsAlike (d : Edit α) (e : Edit β) : Prop where
  renames : Event.renames d.events = Event.renames e.events
  fault : d.fault.map Fault.isStructural = e.fault.map Fault.isStructural

namespace Edit.EndsAlike

theorem refl (d : Edit α) : d.EndsAlike d := ⟨rfl, rfl⟩

theorem map {d : Edit α} {e : Edit β} (h : d.EndsAlike e) (f : α → γ) (g : β → δ) :
    (d.map f).EndsAlike (e.map g) :=
  ⟨h.renames, h.fault⟩

theorem fault_eq_none {d : Edit α} {e : Edit β} (h : d.EndsAlike e) :
    d.fault = none ↔ e.fault = none := by
  rw [← Option.map_eq_none_iff (f := Fault.isStructural), h.fault, Option.map_eq_none_iff]

/-- Edits that decide no rename end alike if they stop together and for faults of one category. -/
theorem of_fault_iff {d : Edit α} {e : Edit β} (hd : d.Silent) (he : e.Silent)
    (hd' : d.Structural) (he' : e.Structural) (h : d.fault = none ↔ e.fault = none) :
    d.EndsAlike e := by
  refine ⟨hd.trans he.symm, ?_⟩
  cases hx : d.fault with
  | none => rw [h.1 hx]
  | some x =>
    cases hy : e.fault with
    | none =>
      rw [h.2 hy] at hx
      cases hx
    | some y =>
      have hk : x.isStructural = y.isStructural := (hd' x hx).trans (he' y hy).symm
      exact congrArg some hk

theorem each {R : α → β → Prop} {f : α → Edit α} {g : β → Edit β} {as : List α} {bs : List β}
    (h : List.Forall₂ R as bs) (hfg : ∀ a b, R a b → (f a).EndsAlike (g b)) :
    (Edit.each f as).EndsAlike (Edit.each g bs) := by
  rw [Edit.each, Edit.each]
  generalize 0 = start
  induction h generalizing start with
  | nil => exact ⟨rfl, rfl⟩
  | @cons a b as bs hab _ ih =>
    have hhead := hfg a b hab
    have htail := ih (start + 1)
    rcases eachFrom_cons_cases (fun _ => f) start a as with ⟨x, hx, heq⟩ | ⟨hx, heq⟩
    · rcases eachFrom_cons_cases (fun _ => g) start b bs with ⟨y, -, heq'⟩ | ⟨hy, -⟩
      · rw [heq, heq']
        exact hhead.map _ _
      · rw [hhead.fault_eq_none.2 hy] at hx
        cases hx
    · rcases eachFrom_cons_cases (fun _ => g) start b bs with ⟨y, hy, -⟩ | ⟨-, heq'⟩
      · rw [hhead.fault_eq_none.1 hx] at hy
        cases hy
      · rw [heq, heq']
        refine ⟨?_, htail.fault⟩
        rw [Event.renames_append, Event.renames_append, hhead.renames, htail.renames]

end Edit.EndsAlike

namespace Declaration

variable (r : Remapper) (mixin : String)

theorem renameLiteral_structural (n : Naming) (mixin : String) (v : AnnotationValue) :
    (renameLiteral n mixin v).Structural := by
  unfold renameLiteral
  split
  · split
    · exact Edit.structural_refuse _ _ _
    · exact Edit.structural_keep _
  · exact Edit.structural_refuse _ _ _

theorem renameLiteral_silent (n : Naming) (mixin : String) (v : AnnotationValue) :
    (renameLiteral n mixin v).Silent := by
  unfold renameLiteral
  split
  · split
    · rfl
    · rfl
  · rfl

/-- The literals of a list are accepted if each of them is, in whatever order. -/
theorem renameLiterals_endAlike {v w : AnnotationValue} (h : v.SameItems w) (mixin : String)
    (n : Naming) :
    (Edit.each (renameLiteral n mixin) v.items).EndsAlike
      (Edit.each (renameLiteral n mixin) w.items) := by
  have hsilent := Edit.each_silent (renameLiteral_silent n mixin)
  have hstructural := Edit.each_structural (renameLiteral_structural n mixin)
  refine .of_fault_iff (hsilent _) (hsilent _) (hstructural _) (hstructural _) ?_
  rw [Edit.each_fault_eq_none, Edit.each_fault_eq_none]
  simp only [h _]

theorem remapElement_endsAlike {e f : String × AnnotationValue} (h : SameElement e f) :
    (remapElement r mixin e.1 e.2).EndsAlike (remapElement r mixin f.1 f.2) := by
  cases h with
  | equal e => exact .refl _
  | targets name hname hitems =>
    rename_i v w
    rcases hname with rfl | rfl
    · exact (renameLiterals_endAlike hitems mixin r.naming).map _ _
    · rw [remapElement, remapElement]
      simp only [String.reduceEq, if_false, if_true]
      cases hv : v.strings? with
      | some texts =>
        obtain ⟨others, hw, -⟩ := hitems.strings? hv
        rw [hw]
        exact ⟨rfl, rfl⟩
      | none =>
        cases hw : w.strings? with
        | none => exact ⟨rfl, rfl⟩
        | some others =>
          obtain ⟨texts, hv', -⟩ := hitems.symm.strings? hw
          rw [hv'] at hv
          cases hv

theorem remap_endsAlike {a b : Annotation} (h : SameTargets a b) :
    (remap r mixin a).EndsAlike (remap r mixin b) := by
  cases h with
  | equal a => exact .refl _
  | mixin helements =>
    refine Edit.EndsAlike.map (.each helements fun e f hef => ?_) _ _
    exact (remapElement_endsAlike r mixin hef).map _ _

end Declaration

/-- What is seen of a run from outside, apart from the declarations of the class. -/
structure Edit.SameOutcome (x y : Edit MixinClass) : Prop where
  fault : x.fault.map Fault.isStructural = y.fault.map Fault.isStructural
  methods : x.value.methods = y.value.methods
  fields : x.value.fields = y.value.fields
  renames : Event.renames x.events = Event.renames y.events

/-- The members of a class are edited without a look at its declarations. -/
theorem remapMembers_with (r : Remapper) (t : TargetSet) (c : MixinClass)
    (annotations : List Annotation) :
    r.remapMembers t { c with annotations } =
      (r.remapMembers t c).map fun c => { c with annotations } := by
  rw [Remapper.remapMembers, Remapper.remapMembers]
  dsimp only
  rcases Edit.each (r.remapMethod c.name c.interfaces t) c.methods with ⟨methods, events, fault⟩
  cases fault with
  | some x => rfl
  | none => rfl

section

variable {r : Remapper} {c d : MixinClass}

theorem MixinClass.SameTargets.with (h : c.SameTargets d) (annotations : List Annotation) :
    { c with annotations } = { d with annotations } := by
  rw [h.name, h.interfaces, h.methods, h.fields]

theorem remapMembers_sameOutcome (hp : r.policy.Stock) (h : c.SameTargets d)
    (as bs : List Annotation) :
    (r.remapMembers (Declaration.targets c.annotations) { c with annotations := as }).SameOutcome
      (r.remapMembers (Declaration.targets d.annotations) { d with annotations := bs }) := by
  have ht := Declaration.targets_sameClasses h.annotations
  have halike := (coupled_alike hp ht).remapMembers { c with annotations := as }
  have hwith := remapMembers_with r (Declaration.targets d.annotations)
    { c with annotations := as } bs
  rw [← h.with, hwith]
  have hmethods := congrArg MixinClass.methods halike.value
  have hfields := congrArg MixinClass.fields halike.value
  exact ⟨halike.fault, hmethods, hfields, halike.renames⟩

/-- Two classes that mention the same targets, in whatever order and however often, are both
accepted or are refused for faults of one category; what their members hold then and what they are
renamed to is the same. -/
theorem outcome_ignores_target_order (hp : r.policy.Stock) (h : c.SameTargets d) :
    (r.remapClass c).SameOutcome (r.remapClass d) := by
  have hends : (Edit.each (Declaration.remap r c.name) c.annotations).EndsAlike
      (Edit.each (Declaration.remap r d.name) d.annotations) := by
    rw [← h.name]
    exact .each h.annotations fun _ _ => Declaration.remap_endsAlike r c.name
  rw [Remapper.remapClass, Remapper.remapClass, ← Declaration.any_isMixin_eq h.annotations]
  generalize Edit.each (Declaration.remap r c.name) c.annotations = x at hends ⊢
  generalize Edit.each (Declaration.remap r d.name) d.annotations = y at hends ⊢
  obtain ⟨as, events, fault⟩ := x
  obtain ⟨bs, events', fault'⟩ := y
  cases fault with
  | some e =>
    cases fault' with
    | none => cases hends.fault
    | some e' => exact ⟨hends.fault, h.methods, h.fields, hends.renames⟩
  | none =>
    cases fault' with
    | some e' => cases hends.fault
    | none =>
      by_cases hmixin : c.annotations.any Declaration.isMixin = true
      · have hmembers := remapMembers_sameOutcome hp h as bs
        have hrenames := hends.renames
        simp only [Edit.andThen, Edit.map, hmixin, if_true]
        refine ⟨hmembers.fault, hmembers.methods, hmembers.fields, ?_⟩
        rw [Event.renames_append, Event.renames_append, hrenames, hmembers.renames]
      · simp only [Edit.andThen, Edit.map, hmixin]
        refine ⟨rfl, h.methods, h.fields, ?_⟩
        rw [Event.renames_append, Event.renames_append, hends.renames]
        rfl

/-- Two targets that both call the overwritten method `go` do so in whatever order they stand. -/
theorem outcome_of_swapped_targets :
    let r : Remapper := ⟨⟨fun _ => none, fun _ => "go", MemberRef.name⟩, .empty, .failFast⟩
    let mixin (targets : List String) : MixinClass :=
      ⟨"m/M", [], [⟨Vocabulary.mixin, [("targets", .strings targets)]⟩], [⟨"run", "()V", []⟩], []⟩
    (r.remapClass (mixin ["a/A", "b/B"])).SameOutcome
        (r.remapClass (mixin ["b/B", "a/A", "b/B"])) ∧
      Event.renames (r.remapClass (mixin ["a/A", "b/B"])).events =
        [⟨⟨"m/M", "run", "()V"⟩, "go"⟩] := by
  intro r mixin
  have hitems : (AnnotationValue.strings ["a/A", "b/B"]).SameItems
      (.strings ["b/B", "a/A", "b/B"]) := by
    intro x
    simp [AnnotationValue.strings, AnnotationValue.items, or_left_comm]
  have htargets : (mixin ["a/A", "b/B"]).SameTargets (mixin ["b/B", "a/A", "b/B"]) := by
    refine ⟨rfl, rfl, rfl, rfl, .cons (.mixin (.cons ?_ .nil)) .nil⟩
    exact .targets "targets" (.inr rfl) hitems
  refine ⟨outcome_ignores_target_order .failFast htargets, ?_⟩
  decide +kernel

end

end MixinNaming
