import Mathlib.Data.List.Forall2
import MixinNaming.Proofs.Locality.Renames
/-! The members of a class are treated one after the other, each as if it stood alone. A run that
is stopped at one of them has done for those before it what a run over them alone does, and nothing
for those after it. -/
namespace MixinNaming

inductive Slot where
  | method (m : Member)
  | field (m : Member)

namespace Slot

def member : Slot → Member
  | method m => m
  | field m => m

def method? : Slot → Option Member
  | method m => some m
  | field _ => none

def field? : Slot → Option Member
  | method _ => none
  | field m => some m

def InOrder (slots : List Slot) : Prop :=
  ∃ methods fields : List Member, slots = methods.map method ++ fields.map field

theorem InOrder.nil : InOrder [] := ⟨[], [], rfl⟩

theorem InOrder.singleton (s : Slot) : InOrder [s] := by
  cases s with
  | method m => exact ⟨[m], [], rfl⟩
  | field m => exact ⟨[], [m], rfl⟩

theorem InOrder.front {front rest : List Slot} (h : InOrder (front ++ rest)) : InOrder front := by
  obtain ⟨methods, fields, h⟩ := h
  rcases List.append_eq_append_iff.1 h with ⟨more, hmethods, -⟩ | ⟨more, rfl, hfields⟩
  · obtain ⟨some, others, -, rfl, -⟩ := List.map_eq_append_iff.1 hmethods
    exact ⟨some, [], (List.append_nil _).symm⟩
  · obtain ⟨some, others, -, rfl, -⟩ := List.map_eq_append_iff.1 hfields
    exact ⟨methods, some, rfl⟩

end Slot

namespace MixinClass

def slots (c : MixinClass) : List Slot := c.methods.map .method ++ c.fields.map .field

def restrict (c : MixinClass) (slots : List Slot) : MixinClass :=
  { c with methods := slots.filterMap Slot.method?, fields := slots.filterMap Slot.field? }

theorem inOrder_slots (c : MixinClass) : Slot.InOrder c.slots := ⟨c.methods, c.fields, rfl⟩

theorem restrict_slots (c d : MixinClass) :
    c.restrict d.slots = { c with methods := d.methods, fields := d.fields } := by
  simp [restrict, slots, List.filterMap_map, Function.comp_def, Slot.method?, Slot.field?]

theorem restrict_self (c : MixinClass) : c.restrict c.slots = c := c.restrict_slots c

theorem slots_restrict (c : MixinClass) {slots : List Slot} (h : Slot.InOrder slots) :
    (c.restrict slots).slots = slots := by
  obtain ⟨methods, fields, rfl⟩ := h
  exact congrArg MixinClass.slots (c.restrict_slots { c with methods, fields })

end MixinClass

namespace Remapper

variable (r : Remapper) (c : MixinClass)

def remapDeclarations : Edit MixinClass :=
  (Edit.each (Declaration.remap r c.name) c.annotations).map fun annotations =>
    { c with annotations }

def remapSlot (s : Slot) : Edit Slot :=
  if c.annotations.any Declaration.isMixin then
    match s with
    | .method m =>
      (r.remapMethod c.name c.interfaces (Declaration.targets c.annotations) m).map .method
    | .field m => (r.remapField c.name (Declaration.targets c.annotations) m).map .field
  else .keep s

theorem remapDeclarations_silent : (r.remapDeclarations c).Silent :=
  Edit.each_silent (fun a => (coupled_silent r .empty).remapDeclaration c.name a) c.annotations

theorem remapSlot_renamesLast (s : Slot) : (r.remapSlot c s).RenamesLast (s.member.ref c.name) := by
  unfold remapSlot
  split
  · cases s with
    | method m => exact r.remapMethod_renamesLast _ c.name c.interfaces m
    | field m => exact r.remapField_renamesLast _ c.name m
  · exact .inl rfl

/-- The pass over the members is one walk over the slots. -/
theorem remapMembers_slots (annotations : List Annotation)
    (hmixin : c.annotations.any Declaration.isMixin = true) :
    (r.remapMembers (Declaration.targets c.annotations) { c with annotations }).map
        MixinClass.slots =
      .each (r.remapSlot c) c.slots := by
  have hmethods := Edit.each_map (k := Slot.method) (g := r.remapSlot c)
    (f := r.remapMethod c.name c.interfaces (Declaration.targets c.annotations))
    (fun m => by rw [remapSlot, if_pos hmixin]) c.methods
  have hfields := Edit.each_map (k := Slot.field) (g := r.remapSlot c)
    (f := r.remapField c.name (Declaration.targets c.annotations))
    (fun m => by rw [remapSlot, if_pos hmixin]) c.fields
  rw [remapMembers, MixinClass.slots]
  generalize hx : Edit.each (r.remapMethod c.name c.interfaces _) c.methods = x at hmethods
  obtain ⟨methods, events, fault⟩ := x
  cases fault with
  | some f =>
    have hfault : (Edit.each (r.remapSlot c) (c.methods.map .method)).fault = some f := by
      rw [hmethods]
      rfl
    rw [Edit.each_append_of_some hfault, hmethods]
    rfl
  | none =>
    have hfault : (Edit.each (r.remapSlot c) (c.methods.map .method)).fault = none := by
      rw [hmethods]
      rfl
    rw [Edit.each_append_of_none hfault, hmethods, hfields]
    rfl

theorem remapMembers_value (t : TargetSet) :
    (r.remapMembers t c).value = c.restrict (r.remapMembers t c).value.slots := by
  rw [MixinClass.restrict_slots, remapMembers]
  rcases Edit.each (r.remapMethod c.name c.interfaces t) c.methods with ⟨methods, events, fault⟩
  cases fault with
  | some f => rfl
  | none => rfl

/-- Declarations that stop the run leave every member as it is. -/
theorem remapClass_of_refused {f : Fault} (h : (r.remapDeclarations c).fault = some f) :
    r.remapClass c = r.remapDeclarations c :=
  Edit.andThen_of_some h _

/-- After the declarations, the slots are edited one by one. -/
theorem remapClass_of_declared (h : (r.remapDeclarations c).fault = none) :
    r.remapClass c =
      (Edit.mk ((r.remapDeclarations c).value.restrict (Edit.each (r.remapSlot c) c.slots).value)
        ((r.remapDeclarations c).events ++ (Edit.each (r.remapSlot c) c.slots).events)
        (Edit.each (r.remapSlot c) c.slots).fault) := by
  have hrun : r.remapClass c = (r.remapDeclarations c).andThen _ := rfl
  rw [hrun, Edit.andThen_of_none h]
  split
  next hmixin =>
    rw [← r.remapMembers_slots c (r.remapDeclarations c).value.annotations hmixin]
    exact congrArg (Edit.mk · _ _) (r.remapMembers_value (r.remapDeclarations c).value _)
  next hmixin =>
    have hkeep : r.remapSlot c = Edit.keep := funext fun s => if_neg hmixin
    rw [hkeep, Edit.each_keep]
    exact congrArg (Edit.mk · _ _) ((r.remapDeclarations c).value.restrict_slots _).symm

theorem inOrder_each_remapSlot : Slot.InOrder (Edit.each (r.remapSlot c) c.slots).value := by
  by_cases hmixin : c.annotations.any Declaration.isMixin = true
  · rw [← r.remapMembers_slots c c.annotations hmixin]
    exact MixinClass.inOrder_slots _
  · have hkeep : r.remapSlot c = Edit.keep := funext fun s => if_neg hmixin
    rw [hkeep, Edit.each_keep]
    exact c.inOrder_slots

/-- The run over the class cut down to some of its members. -/
def remapOnly (slots : List Slot) : Edit MixinClass := r.remapClass (c.restrict slots)

/-- A run that comes to the end has done for every member what it does for that member alone. -/
structure TreatsAll : Prop where
  members : List.Forall₂ (fun s s' => (r.remapOnly c [s]).fault = none ∧
    (r.remapOnly c [s]).value.slots = [s']) c.slots (r.remapClass c).value.slots
  renames : Event.renames (r.remapClass c).events =
    c.slots.flatMap fun s => Event.renames (r.remapOnly c [s]).events
  events : ∃ own : Slot → List Event,
    (∀ s ∈ c.slots, (r.remapOnly c [s]).events = (r.remapOnly c []).events ++ own s) ∧
      (r.remapClass c).events = (r.remapOnly c []).events ++ c.slots.flatMap own

/-- A run that stops at a member has done for those before it what it does for them alone, and
nothing for those after it. -/
structure StopsAt (before : List Slot) (s : Slot) (after : List Slot) (f : Fault) : Prop where
  slots : c.slots = before ++ s :: after
  completes : (r.remapOnly c before).fault = none
  stops : (r.remapOnly c [s]).fault = some f
  silent : Event.renames (r.remapOnly c [s]).events = []
  members : ∃ s', (r.remapOnly c [s]).value.slots = [s'] ∧
    (r.remapClass c).value.slots = (r.remapOnly c before).value.slots ++ s' :: after
  renames : Event.renames (r.remapClass c).events = Event.renames (r.remapOnly c before).events
  events : ∃ own, (r.remapOnly c [s]).events = (r.remapOnly c []).events ++ own ∧
    (r.remapClass c).events = (r.remapOnly c before).events ++ own

section Declared

variable {r c} (h : (r.remapDeclarations c).fault = none)
include h

theorem remapOnly_of_declared {slots : List Slot} (hslots : Slot.InOrder slots) :
    r.remapOnly c slots =
      ⟨(r.remapDeclarations c).value.restrict (Edit.each (r.remapSlot c) slots).value,
        (r.remapDeclarations c).events ++ (Edit.each (r.remapSlot c) slots).events,
        (Edit.each (r.remapSlot c) slots).fault⟩ := by
  have hrun := r.remapClass_of_declared (c.restrict slots) h
  rw [c.slots_restrict hslots] at hrun
  exact hrun

theorem slots_remapOnly {slots : List Slot} (hslots : Slot.InOrder slots) :
    (r.remapOnly c slots).value.slots = (Edit.each (r.remapSlot c) slots).value := by
  have hordered := r.inOrder_each_remapSlot (c.restrict slots)
  rw [c.slots_restrict hslots] at hordered
  rw [remapOnly_of_declared h hslots]
  exact MixinClass.slots_restrict _ hordered

theorem remapOnly_singleton (s : Slot) :
    (r.remapOnly c [s]).fault = (r.remapSlot c s).fault ∧
      (r.remapOnly c [s]).value.slots = [(r.remapSlot c s).value] ∧
      (r.remapOnly c [s]).events = (r.remapDeclarations c).events ++ (r.remapSlot c s).events := by
  refine ⟨?_, ?_, ?_⟩
  · rw [remapOnly_of_declared h (.singleton s), Edit.each_singleton]
    rfl
  · rw [slots_remapOnly h (.singleton s), Edit.each_singleton]
    rfl
  · rw [remapOnly_of_declared h (.singleton s), Edit.each_singleton]
    rfl

theorem events_remapOnly_nil :
    (r.remapOnly c []).events = (r.remapDeclarations c).events := by
  rw [remapOnly_of_declared h .nil]
  exact List.append_nil _

theorem renames_remapOnly {slots : List Slot} (hslots : Slot.InOrder slots) :
    Event.renames (r.remapOnly c slots).events =
      Event.renames (Edit.each (r.remapSlot c) slots).events := by
  have hsilent : Event.renames (r.remapDeclarations c).events = [] := r.remapDeclarations_silent c
  rw [remapOnly_of_declared h hslots, Event.renames_append, hsilent, List.nil_append]

theorem renames_remapOnly_singleton (s : Slot) :
    Event.renames (r.remapOnly c [s]).events = Event.renames (r.remapSlot c s).events := by
  rw [renames_remapOnly h (.singleton s), Edit.each_singleton]
  rfl

theorem treatsAll (hrun : (r.remapClass c).fault = none) : r.TreatsAll c := by
  have heach : (Edit.each (r.remapSlot c) c.slots).fault = none := by
    rw [← hrun, r.remapClass_of_declared c h]
  have hitems := Edit.each_of_completed heach
  have hwhole := remapOnly_of_declared h c.inOrder_slots
  have hslots := slots_remapOnly h c.inOrder_slots
  have hrenames := renames_remapOnly h c.inOrder_slots
  rw [remapOnly, c.restrict_self] at hwhole hslots hrenames
  refine ⟨?_, ?_, fun s => (r.remapSlot c s).events, fun s _ => ?_, ?_⟩
  · rw [hslots, hitems, List.forall₂_map_right_iff, List.forall₂_same]
    intro s hs
    obtain ⟨hfault, hvalue, -⟩ := remapOnly_singleton h s
    exact ⟨hfault.trans (Edit.each_fault_eq_none.1 heach s hs), hvalue⟩
  · rw [hrenames, hitems]
    refine List.filterMap_flatMap.trans (List.flatMap_congr fun s _ => ?_)
    exact (renames_remapOnly_singleton h s).symm
  · rw [(remapOnly_singleton h s).2.2, events_remapOnly_nil h]
  · rw [hwhole, hitems, events_remapOnly_nil h]

theorem stopsAt {f : Fault} (hrun : (r.remapClass c).fault = some f) :
    ∃ before s after, r.StopsAt c before s after f := by
  have heach : (Edit.each (r.remapSlot c) c.slots).fault = some f := by
    rw [← hrun, r.remapClass_of_declared c h]
  obtain ⟨before, s, after, hsplit, hbefore, hs, hitems⟩ := Edit.each_of_stopped heach
  have hfront : Slot.InOrder before := by
    have hinOrder := c.inOrder_slots
    rw [hsplit] at hinOrder
    exact hinOrder.front
  have hupTo := remapOnly_of_declared h hfront
  have hwhole := remapOnly_of_declared h c.inOrder_slots
  have hslots := slots_remapOnly h c.inOrder_slots
  have hrenames := renames_remapOnly h c.inOrder_slots
  rw [remapOnly, c.restrict_self] at hwhole hslots hrenames
  obtain ⟨hfault, hvalue, hevents⟩ := remapOnly_singleton h s
  -- what stops the run at a member keeps it from deciding the rename of that member
  have hsilent : (r.remapSlot c s).Silent := by
    rcases r.remapSlot_renamesLast c s with hsilent | ⟨hnone, -⟩
    · exact hsilent
    · rw [hs] at hnone
      cases hnone
  refine ⟨before, s, after, hsplit, ?_, hfault.trans hs, ?_, ⟨_, hvalue, ?_⟩, ?_,
    (r.remapSlot c s).events, ?_, ?_⟩
  · rw [hupTo, hbefore]
  · rw [renames_remapOnly_singleton h s]
    exact hsilent
  · rw [hslots, hitems, slots_remapOnly h hfront]
  · rw [hrenames, hitems, Event.renames_append, hsilent, List.append_nil,
      renames_remapOnly h hfront]
  · rw [hevents, events_remapOnly_nil h]
  · rw [hwhole, hitems, hupTo, List.append_assoc]

end Declared

/-- A run treats the members of a class in turn, each as if it stood alone, and decides at most the
rename of that member for it. What the declarations do is what they do without any member; if they
stop the run, nothing is done for the members. -/
theorem remapClass_member_by_member :
    (∀ s, Event.renames (r.remapOnly c [s]).events = [] ∨
      ∃ newName, Event.renames (r.remapOnly c [s]).events = [⟨s.member.ref c.name, newName⟩]) ∧
    (r.remapClass c).value = (r.remapOnly c []).value.restrict (r.remapClass c).value.slots ∧
    match (r.remapOnly c []).fault, (r.remapClass c).fault with
    | some f, outcome => outcome = some f ∧ (r.remapClass c).value.slots = c.slots ∧
        Event.renames (r.remapClass c).events = []
    | none, none => r.TreatsAll c
    | none, some f => ∃ before s after, r.StopsAt c before s after f := by
  have hsilent := r.remapDeclarations_silent c
  cases h : (r.remapDeclarations c).fault with
  | some f =>
    have hwhole := r.remapClass_of_refused c h
    have hrefused (slots) : r.remapOnly c slots = r.remapDeclarations (c.restrict slots) :=
      r.remapClass_of_refused (c.restrict slots) h
    refine ⟨fun s => .inl ?_, ?_, ?_⟩
    · rw [hrefused]
      exact hsilent
    · rw [hwhole, hrefused]
      exact ((r.remapDeclarations c).value.restrict_self).symm
    · have hbare : (r.remapOnly c []).fault = some f := by
        rw [hrefused]
        exact h
      rw [hbare, hwhole]
      exact ⟨h, rfl, hsilent⟩
  | none =>
    have hbare := remapOnly_of_declared h Slot.InOrder.nil
    refine ⟨fun s => ?_, ?_, ?_⟩
    · rw [renames_remapOnly_singleton h s]
      rcases r.remapSlot_renamesLast c s with hs | ⟨-, newName, hs⟩
      · exact .inl hs
      · exact .inr ⟨newName, hs⟩
    · have hwhole := remapOnly_of_declared h c.inOrder_slots
      have hslots := slots_remapOnly h c.inOrder_slots
      rw [remapOnly, c.restrict_self] at hwhole hslots
      rw [hslots, hwhole, hbare]
      rfl
    · have hcompletes : (r.remapOnly c []).fault = none := by rw [hbare]; rfl
      rw [hcompletes]
      cases hrun : (r.remapClass c).fault with
      | none => exact treatsAll h hrun
      | some f => exact stopsAt h hrun

end Remapper

end MixinNaming
