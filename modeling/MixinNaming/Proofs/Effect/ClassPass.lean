import MixinNaming.Proofs.Effect.Queries
import MixinNaming.Proofs.Effect.Shadow
import MixinNaming.Proofs.Locality.ClassPass
/-! Whole runs. Wherever a run is stopped, it has not renamed a method that a protected interface
provides: the rules that rename methods have the guard in common, and it comes before the rename in
each of them. -/
namespace MixinNaming

theorem Edit.RenamesLast.member_eq {α : Type} {d : Edit α} {m : MemberRef} (h : d.RenamesLast m)
    {x : Rename} (hx : x ∈ Event.renames d.events) : x.member = m := by
  rcases h with hsilent | ⟨-, newName, hrenames⟩
  · have hnone : Event.renames d.events = [] := hsilent
    rw [hnone] at hx
    cases hx
  · rw [hrenames] at hx
    rw [List.mem_singleton.1 hx]

namespace Remapper

variable (r : Remapper)

/-- The renames of a run over a class are those of its methods, and after them those of its fields.
Those of methods spare what protected interfaces provide. -/
structure Guarded (c : MixinClass) : Prop where
  methods : ∀ x ∈ Event.renames (r.remapClass { c with fields := [] }).events,
    ∃ m ∈ c.methods, x.member = m.ref c.name ∧ (x.member.isMethod = true →
      ¬r.Shields ⟨x.member, c.interfaces⟩ (Declaration.targets c.annotations))
  fields : ∃ ofFields,
    Event.renames (r.remapClass c).events =
      Event.renames (r.remapClass { c with fields := [] }).events ++ ofFields ∧
    ∀ x ∈ ofFields, ∃ f ∈ c.fields, x.member = f.ref c.name

/-- Overwritten methods follow the targets of the mixin. No target is asked for a method under its
own name, and it makes no difference whether there is an annotation. -/
structure SettlesOverwrites : Prop where
  effect : ∀ mixin interfaces t m, r.Overwritten mixin t m →
    r.Overwrites ⟨m.ref mixin, interfaces⟩ t (r.classifyGaps (m.ref mixin) m.annotations)
      (r.remapMethod mixin interfaces t m).effect
  unannotated : ∀ mixin interfaces t (m : Member),
    (r.classify (m.ref mixin) m.annotations).result = .ok none →
    (r.remapMethod mixin interfaces t m).value = m ∧
      (r.remapMethod mixin interfaces t m).Asks (r.AsksInterface ⟨m.ref mixin, interfaces⟩ t)
  asked : ∀ mixin interfaces t m, r.Overwritten mixin t m →
    (r.remapMethod mixin interfaces t m).Asks fun q =>
      r.AsksInterface ⟨m.ref mixin, interfaces⟩ t q ∨
        ∃ a ∈ m.annotations, a.desc = Vocabulary.overwrite ∧ AsksAlias t m.desc a q
  alike : ∀ (k : Hierarchy) mixin interfaces t (m m' : Member), m'.name = m.name →
    m'.desc = m.desc → r.Overwritten mixin t m → (r.under k).Overwritten mixin t m' →
    r.classifyGaps (m'.ref mixin) m'.annotations = r.classifyGaps (m.ref mixin) m.annotations →
    (∀ interface ∈ interfaces, r.policy.protects interface t = true →
      (k.Provides m.name m.desc interface ↔ r.hierarchy.Provides m.name m.desc interface)) →
    (r.remapMethod mixin interfaces t m).effect.Alike
      ((r.under k).remapMethod mixin interfaces t m').effect
  guarded : ∀ c, r.Guarded c

variable {r}

section Method

variable {mixin : String} {interfaces : List String} {t : TargetSet} {m : Member}

theorem remapMethod_silent_of_shields (hmethod : (m.ref mixin).isMethod = true)
    (h : r.Shields ⟨m.ref mixin, interfaces⟩ t) :
    (r.remapMethod mixin interfaces t m).Silent := by
  refine (coupled_silent r t).toPaired.remapMethod mixin interfaces m (fun lead => ?_)
    fun label => ?_
  · obtain ⟨shadowed, final, hlead⟩ := exists_standsUnder lead m.name
    have hshadows : r.Shadows ⟨m.ref mixin, interfaces⟩ t shadowed final [] _ :=
      effect_settleShadow hlead
    exact hshadows.renames_of_shields hmethod h
  · exact (effect_settleOverwrite ⟨m.ref mixin, interfaces⟩ t label).renames_of_shields h

theorem not_shields_of_rename {x : Rename}
    (hx : x ∈ Event.renames (r.remapMethod mixin interfaces t m).events)
    (hmethod : x.member.isMethod = true) : ¬r.Shields ⟨x.member, interfaces⟩ t := by
  intro hshields
  have hmember := (r.remapMethod_renamesLast t mixin interfaces m).member_eq hx
  rw [hmember] at hmethod hshields
  have hsilent : Event.renames (r.remapMethod mixin interfaces t m).events = [] :=
    remapMethod_silent_of_shields hmethod hshields
  rw [hsilent] at hx
  cases hx

theorem classifyGaps_under (k : Hierarchy) (member : MemberRef) (annotations : List Annotation) :
    (r.under k).classifyGaps member annotations = r.classifyGaps member annotations := by
  have hequal := (attuned_under (r := r) (k := k) (t := .empty) nofun).classify member 0 none
    annotations
  rw [classifyGaps, classifyGaps, classify, classify]
  exact congrArg (fun x : Attempt (Option Governing) => Event.gaps x.events) hequal.symm

end Method

section Class

variable {c : MixinClass}

theorem renames_remapClass (r : Remapper) (c : MixinClass) :
    Event.renames (r.remapClass c).events =
      match (r.remapDeclarations c).fault with
      | some _ => []
      | none => Event.renames (Edit.each (r.remapSlot c) c.slots).events := by
  have hsilent : Event.renames (r.remapDeclarations c).events = [] := r.remapDeclarations_silent c
  cases hfault : (r.remapDeclarations c).fault with
  | some f => rw [r.remapClass_of_refused c hfault, hsilent]
  | none => rw [r.remapClass_of_declared c hfault, Event.renames_append, hsilent, List.nil_append]

/-- What is renamed in a list of members is renamed in one of them. -/
theorem exists_of_rename {slots : List Slot} {x : Rename}
    (hx : x ∈ Event.renames (Edit.each (r.remapSlot c) slots).events) :
    ∃ s ∈ slots, x ∈ Event.renames (r.remapSlot c s).events := by
  refine Edit.each_events (p := fun events => x ∈ Event.renames events →
    ∃ s ∈ slots, x ∈ Event.renames (r.remapSlot c s).events) (fun hnil => nomatch hnil) ?_ ?_ hx
  · intro a b ha hb hab
    rw [Event.renames_append, List.mem_append] at hab
    exact hab.elim ha hb
  · exact fun s hs hrename => ⟨s, hs, hrename⟩

theorem rename_of_method {m : Member} {x : Rename}
    (hx : x ∈ Event.renames (r.remapSlot c (.method m)).events) :
    x.member = m.ref c.name ∧ (x.member.isMethod = true →
      ¬r.Shields ⟨x.member, c.interfaces⟩ (Declaration.targets c.annotations)) := by
  refine ⟨(r.remapSlot_renamesLast c (.method m)).member_eq hx, ?_⟩
  rw [remapSlot] at hx
  split at hx
  · exact not_shields_of_rename hx
  · cases hx

theorem guarded (r : Remapper) (c : MixinClass) : r.Guarded c where
  methods := by
    intro x hx
    rw [renames_remapClass] at hx
    split at hx
    · cases hx
    · obtain ⟨s, hs, hrename⟩ := exists_of_rename hx
      rw [MixinClass.slots, List.map_nil, List.append_nil] at hs
      obtain ⟨m, hm, rfl⟩ := List.mem_map.1 hs
      exact ⟨m, hm, rename_of_method hrename⟩
  fields := by
    have hmethods := r.renames_remapClass { c with fields := [] }
    have hdeclared : (r.remapDeclarations { c with fields := [] }).fault =
      (r.remapDeclarations c).fault := rfl
    rw [hdeclared, MixinClass.slots, List.map_nil, List.append_nil] at hmethods
    rw [hmethods, renames_remapClass, MixinClass.slots]
    cases hfault : (r.remapDeclarations c).fault with
    | some f => exact ⟨[], rfl, fun x hx => absurd hx List.not_mem_nil⟩
    | none =>
      dsimp only
      cases hfront : (Edit.each (r.remapSlot c) (c.methods.map .method)).fault with
      | some f =>
        refine ⟨[], ?_, fun x hx => absurd hx List.not_mem_nil⟩
        rw [Edit.each_append_of_some hfront, List.append_nil]
        rfl
      | none =>
        refine ⟨Event.renames (Edit.each (r.remapSlot c) (c.fields.map .field)).events, ?_,
          fun x hx => ?_⟩
        · rw [Edit.each_append_of_none hfront, Event.renames_append]
          rfl
        · obtain ⟨s, hs, hrename⟩ := exists_of_rename hx
          obtain ⟨f, hf, rfl⟩ := List.mem_map.1 hs
          exact ⟨f, hf, (r.remapSlot_renamesLast c (.field f)).member_eq hrename⟩

end Class

end Remapper

/-- An overwritten method takes the name that all targets give it unless an interface keeps it, and
no run renames a method that a protected interface provides. -/
theorem overwritten_method_follows_its_targets (r : Remapper) : r.SettlesOverwrites where
  effect mixin interfaces t m h := h.overwrites interfaces
  unannotated mixin interfaces t m h := ⟨congrArg (Member.mk m.name m.desc)
    (Remapper.remapMain_of_ungoverned ⟨m.ref mixin, interfaces⟩ _ _ h).1,
    Remapper.remapMethod_asks_of_ungoverned h interfaces⟩
  asked mixin interfaces t m h := h.asks interfaces
  alike := by
    intro k mixin interfaces t m m' hname hdesc h h' hgaps hagree
    have hother := h'.overwrites interfaces
    have href : m'.ref mixin = m.ref mixin := by
      rw [Member.ref, Member.ref, hname, hdesc]
    rw [Remapper.classifyGaps_under, hgaps, href] at hother
    refine (h.overwrites interfaces).alike hother ?_
    refine exists_congr fun interface => and_congr_right fun hinterface => ?_
    exact and_congr_right fun hprotects => hagree interface hinterface hprotects
  guarded := r.guarded

/-- The same method with and without an interface that provides it; the target does not. -/
theorem overwritten_method_beside_interface :
    let table := MappingTable.empty.withMember ⟨⟨"a/T", "run", "()V"⟩, "go"⟩
    let hierarchy := Hierarchy.empty.withClass "a/I" (ClassInfo.empty.declaring "run" "()V")
    let r : Remapper := ⟨table.naming, hierarchy, .failFast⟩
    let m : Member := ⟨"run", "()V", []⟩
    r.Overwritten "x/M" (.single "a/T") m ∧
      (r.remapMethod "x/M" [] (.single "a/T") m).effect = ⟨[⟨m.ref "x/M", "go"⟩], [], none⟩ ∧
      (r.remapMethod "x/M" ["a/I"] (.single "a/T") m).effect.Refused [] := by
  intro table hierarchy r m
  have hoverwritten : r.Overwritten "x/M" (.single "a/T") m := .implicit rfl
  have heffect := fun interfaces => (overwritten_method_follows_its_targets r).effect "x/M"
    interfaces (.single "a/T") m hoverwritten
  have hagreed : r.Agreed .everyTarget (.single "a/T") "run" "()V" "go" := by
    refine ⟨⟨"a/T", List.mem_singleton_self _, trivial⟩, fun c hc _ => ?_⟩
    cases List.mem_singleton.1 hc
    decide +kernel
  refine ⟨hoverwritten, ?_, ?_⟩
  · refine ((heffect []).agreed "go" hagreed).renamed (by decide) ?_
    rintro ⟨interface, hinterface, -⟩
    cases hinterface
  · refine ((heffect ["a/I"]).agreed "go" hagreed).refused (by decide) ?_
    have hprovides : r.hierarchy.Provides "run" "()V" "a/I" :=
      ⟨"a/I", ClassInfo.empty.declaring "run" "()V", .refl, by decide +kernel, by decide⟩
    exact ⟨"a/I", List.mem_singleton_self _, rfl, hprovides⟩

end MixinNaming
