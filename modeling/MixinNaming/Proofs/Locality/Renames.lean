import MixinNaming.Proofs.Coupling.ClassPass
import MixinNaming.Proofs.Outcome
/-! When a rename is decided. A member is renamed at most once, as the last thing that is done for
it: whatever stops the run of a member has stopped it before. No other part of a run decides a
rename. -/
namespace MixinNaming

variable {α β : Type} {m : MemberRef}

/-- All that a run asks of the policy, the hierarchy and the targets, it asks without a rename. -/
theorem coupled_silent (r : Remapper) (t : TargetSet) : Coupled .silent r r t t :=
  .of_policies (fun _ _ => rfl) rfl rfl t

/-- It decides no rename, or that of one member and is not stopped any more. -/
def Attempt.RenamesLast (m : MemberRef) (x : Attempt α) : Prop :=
  x.Silent ∨ (∃ a, x.result = .ok a) ∧ ∃ newName, Event.renames x.events = [⟨m, newName⟩]

def Edit.RenamesLast (m : MemberRef) (d : Edit α) : Prop :=
  d.Silent ∨ d.fault = none ∧ ∃ newName, Event.renames d.events = [⟨m, newName⟩]

theorem Attempt.RenamesLast.after {x : Attempt α} {f : α → Attempt β} (hx : x.Silent)
    (hf : ∀ a, (f a).RenamesLast m) : (x.bind f).RenamesLast m := by
  obtain ⟨events, result⟩ := x
  have hevents : Event.renames events = [] := hx
  cases result with
  | error e => exact .inl hx
  | ok a =>
    have hrenames : Event.renames (events ++ (f a).events) = Event.renames (f a).events := by
      rw [Event.renames_append, hevents, List.nil_append]
    rcases hf a with ha | ⟨hok, newName, ha⟩
    · exact .inl (hrenames.trans ha)
    · exact .inr ⟨hok, newName, hrenames.trans ha⟩

namespace Edit.RenamesLast

theorem given {x : Attempt β} (a : α) {f : β → Edit α} (hx : x.Silent)
    (hf : ∀ b, (f b).RenamesLast m) : (Edit.given x a f).RenamesLast m := by
  obtain ⟨events, result⟩ := x
  have hevents : Event.renames events = [] := hx
  cases result with
  | error e => exact .inl hx
  | ok b =>
    have hrenames : Event.renames (events ++ (f b).events) = Event.renames (f b).events := by
      rw [Event.renames_append, hevents, List.nil_append]
    rcases hf b with hb | ⟨hfault, newName, hb⟩
    · exact .inl (hrenames.trans hb)
    · exact .inr ⟨hfault, newName, hrenames.trans hb⟩

theorem andThen {d : Edit α} {f : α → Edit α} (hd : d.Silent) (hf : ∀ a, (f a).RenamesLast m) :
    (d.andThen f).RenamesLast m := by
  obtain ⟨a, events, fault⟩ := d
  have hevents : Event.renames events = [] := hd
  cases fault with
  | some x => exact .inl hd
  | none =>
    have hrenames : Event.renames (events ++ (f a).events) = Event.renames (f a).events := by
      rw [Event.renames_append, hevents, List.nil_append]
    rcases hf a with ha | ⟨hfault, newName, ha⟩
    · exact .inl (hrenames.trans ha)
    · exact .inr ⟨hfault, newName, hrenames.trans ha⟩

theorem check {x : Attempt Unit} (a : α) (hx : x.RenamesLast m) :
    (Edit.check x a).RenamesLast m := by
  rcases hx with hx | ⟨⟨b, hok⟩, newName, hrenames⟩
  · exact .inl (Congruence.silent.check (y := x) a hx)
  · refine .inr ?_
    rw [Edit.check, Edit.replace, Edit.given, hok]
    refine ⟨rfl, newName, ?_⟩
    rw [Event.renames_append, hrenames]
    rfl

end Edit.RenamesLast

namespace Remapper

variable (r : Remapper) (site : Site) (t : TargetSet)

theorem decideRename_renamesLast (newName : String) :
    (decideRename site newName).RenamesLast site.member :=
  .inr ⟨⟨(), rfl⟩, newName, rfl⟩

theorem renameShadow_renamesLast (newName : String) :
    (r.renameShadow site t newName).RenamesLast site.member := by
  rw [renameShadow]
  split
  · exact .inl (Attempt.silent_answer ())
  · refine .after ?_ fun _ => decideRename_renamesLast site newName
    split
    · exact (coupled_silent r t).guard site "@Shadow" site.interfaces
    · exact Attempt.silent_answer ()

theorem settleShadow_renamesLast (lead : String) :
    (r.settleShadow site t lead).RenamesLast site.member := by
  refine .after ((coupled_silent r t).memberName site "@Shadow" _ _) fun found => ?_
  cases found with
  | none => exact .inl rfl
  | some renamed => exact r.renameShadow_renamesLast site t _

theorem settleOverwrite_renamesLast (label : String) :
    (r.settleOverwrite site t label).RenamesLast site.member := by
  refine .after ((coupled_silent r t).memberName site label _ _) fun found => ?_
  cases found with
  | none => exact .inl (Attempt.silent_answer ())
  | some newName =>
    dsimp only
    split
    · exact .inl (Attempt.silent_answer ())
    · exact .after ((coupled_silent r t).guard site label site.interfaces) fun _ =>
        decideRename_renamesLast site newName

theorem remapShadow_renamesLast (node : Annotation) :
    (r.remapShadow site t node).RenamesLast site.member := by
  have hsilent := coupled_silent r t
  refine .andThen (Congruence.silent.editElements (hsilent.remapShadowElement site) node) ?_
  exact fun node => .check node (r.settleShadow_renamesLast site t _)

theorem remapOverwrite_renamesLast (node : Annotation) :
    (r.remapOverwrite site t node).RenamesLast site.member := by
  have hsilent := coupled_silent r t
  refine .andThen (Congruence.silent.editElements (hsilent.remapOverwriteElement site) node) ?_
  exact fun node => .check node (r.settleOverwrite_renamesLast site t _)

theorem remapGoverningMethod_renamesLast (kind : AnnotationKind) (node : Annotation) :
    (r.remapGoverningMethod site t kind node).RenamesLast site.member := by
  cases kind with
  | shadow => exact r.remapShadow_renamesLast site t node
  | unique => exact .inl ((coupled_silent r t).remapUnique site node)
  | overwrite => exact r.remapOverwrite_renamesLast site t node
  | injector kind => exact .inl ((coupled_silent r t).ruleSet kind.rules _ _ _ node)
  | final => exact .inl rfl
  | mutable => exact .inl rfl

theorem remapGoverningField_renamesLast (kind : AnnotationKind) (node : Annotation) :
    (r.remapGoverningField site t kind node).RenamesLast site.member := by
  cases kind with
  | shadow => exact r.remapShadow_renamesLast site t node
  | unique => exact .inl ((coupled_silent r t).remapUnique site node)
  | _ => exact .inl rfl

theorem remapMain_renamesLast {without : Attempt Unit}
    {f : AnnotationKind → Annotation → Edit Annotation} (hx : without.RenamesLast site.member)
    (hf : ∀ kind node, (f kind node).RenamesLast site.member) (annotations : List Annotation) :
    (r.remapMain site without f annotations).RenamesLast site.member := by
  have hclassify := (coupled_silent r .empty).classify site.member 0 none annotations
  refine .given annotations hclassify fun found => ?_
  cases found with
  | none => exact .check annotations hx
  | some main =>
    dsimp only
    rw [Edit.atIndex]
    split
    · exact hf main.kind _
    · exact .inl rfl

/-- A method decides at most its own rename, and nothing stops it afterwards. -/
theorem remapMethod_renamesLast (mixin : String) (interfaces : List String) (m : Member) :
    (r.remapMethod mixin interfaces t m).RenamesLast (m.ref mixin) :=
  r.remapMain_renamesLast ⟨m.ref mixin, interfaces⟩ (r.settleOverwrite_renamesLast _ t _)
    (r.remapGoverningMethod_renamesLast _ t) m.annotations

theorem remapField_renamesLast (mixin : String) (m : Member) :
    (r.remapField mixin t m).RenamesLast (m.ref mixin) :=
  r.remapMain_renamesLast ⟨m.ref mixin, []⟩ (.inl (Attempt.silent_answer ()))
    (r.remapGoverningField_renamesLast _ t) m.annotations

end Remapper

end MixinNaming
