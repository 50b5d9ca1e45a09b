import MixinNaming.Proofs.Effect.Governing
import MixinNaming.Proofs.Hierarchy.Relevance
/-! The effect of an overwrite, which is explicit where an @Overwrite governs the method and
implicit where nothing does. All targets have a say in the name of the method, whether they declare
it or not; the method takes the name on which they agree unless an interface keeps it. -/
namespace MixinNaming.Remapper

variable (r : Remapper)

structure Overwrites (site : Site) (t : TargetSet) (before : List Gap) (e : Effect) : Prop where
  untargeted : t.classes = [] → e = .passing before
  torn : r.Torn .everyTarget t site.member.name site.member.desc → e.Refused before
  agreed : ∀ newName, r.Agreed .everyTarget t site.member.name site.member.desc newName →
    e.Names before site.member (r.Shields site t) newName

/-- A method that is overwritten, with an annotation that states nothing but constraints and
aliases on which the targets agree, or without one. -/
inductive Overwritten (mixin : String) (t : TargetSet) (m : Member) : Prop
  | implicit (h : (r.classify (m.ref mixin) m.annotations).result = .ok none)
  | explicit {index : Nat} {node : Annotation}
      (h : (r.classify (m.ref mixin) m.annotations).result = .ok (some ⟨index, .overwrite⟩))
      (hnode : m.annotations[index]? = some node)
      (hknown : ∀ name ∈ node.names, name = "constraints" ∨ name = "aliases")
      (haliases : node.SpellsAliases) (hagree : ¬r.TornAlias t m.desc node)

variable {r} {site : Site} {t : TargetSet} {before : List Gap} {e : Effect}

theorem Overwrites.after (h : r.Overwrites site t [] e) (before : List Gap) :
    r.Overwrites site t before (e.after before) where
  untargeted hnone := by
    rw [h.untargeted hnone, Effect.after, Effect.passing, List.append_nil]
    rfl
  torn htorn := (h.torn htorn).after before
  agreed newName hagreed := (h.agreed newName hagreed).after before

/-- Every target has a say, so the name is agreed on or torn unless there is no target. -/
theorem agreed_or_torn_everyTarget (name desc : String) (h : t.classes ≠ []) :
    (∃ newName, r.Agreed .everyTarget t name desc newName) ∨ r.Torn .everyTarget t name desc := by
  obtain ⟨c, hc⟩ := List.exists_mem_of_ne_nil t.classes h
  exact agreed_or_torn ⟨c, hc, trivial⟩

/-- The targets, the names in them and the interfaces determine the effect; what the hierarchy says
of the targets does not matter. -/
theorem Overwrites.alike {k : Hierarchy} {e' : Effect} (h : r.Overwrites site t before e)
    (h' : (r.under k).Overwrites site t before e')
    (hshields : (r.under k).Shields site t ↔ r.Shields site t) : e.Alike e' := by
  by_cases hclasses : t.classes = []
  · rw [h.untargeted hclasses, h'.untargeted hclasses]
    exact .refl _
  · rcases agreed_or_torn_everyTarget (r := r) site.member.name site.member.desc hclasses with
      ⟨newName, hagreed⟩ | htorn
    · have hagreed' : (r.under k).Agreed .everyTarget t site.member.name site.member.desc newName :=
        ⟨hagreed.voiced, hagreed.unanimous⟩
      exact (h.agreed newName hagreed).alike (h'.agreed newName hagreed') hshields
    · have htorn' : (r.under k).Torn .everyTarget t site.member.name site.member.desc := htorn
      exact (h.torn htorn).alike (h'.torn htorn')

theorem Overwrites.renames_of_shields (h : r.Overwrites site t before e)
    (hshields : r.Shields site t) : e.renames = [] := by
  by_cases hclasses : t.classes = []
  · rw [h.untargeted hclasses]
    rfl
  · rcases agreed_or_torn_everyTarget (r := r) site.member.name site.member.desc hclasses with
      ⟨newName, hagreed⟩ | htorn
    · exact (h.agreed newName hagreed).renames_of_shielded hshields
    · exact (h.torn htorn).renames

theorem effect_settleOverwrite (site : Site) (t : TargetSet) (label : String) :
    r.Overwrites site t [] (r.settleOverwrite site t label).effect := by
  have hplain := nameAcross_plain (r := r) site label site.member.name t .everyTarget
  rw [settleOverwrite]
  refine ⟨fun hnone => ?_, fun htorn => ?_, fun newName hagreed => ?_⟩
  · have hunvoiced : ∀ c ∈ t.classes,
        ¬r.HasSay .everyTarget site.member.name site.member.desc c := by
      intro c hc
      rw [hnone] at hc
      cases hc
    rw [hplain.effect_bind (nameAcross_of_unvoiced site label hunvoiced)]
    rfl
  · exact hplain.refused_bind (nameAcross_of_torn site label htorn) _
  · rw [hplain.effect_bind (nameAcross_of_agreed site label hagreed)]
    exact effect_rename (guardInterfaces_plain site label t site.interfaces)
      guardInterfaces_eq_ok_iff_not_shields newName

theorem editsAliases_overwrite {node : Annotation}
    (h : ∀ name ∈ node.names, name = "constraints" ∨ name = "aliases") :
    r.EditsAliases site overwriteLabel t node (r.remapOverwriteElement site t) where
  aliases v := rfl
  others := by
    intro e he hname
    have hconstraints := (h e.1 (List.mem_map_of_mem he)).resolve_right hname
    rw [hconstraints]
    rfl

theorem Overwritten.overwrites {mixin : String} {m : Member} (h : r.Overwritten mixin t m)
    (interfaces : List String) :
    r.Overwrites ⟨m.ref mixin, interfaces⟩ t (r.classifyGaps (m.ref mixin) m.annotations)
      (r.remapMethod mixin interfaces t m).effect := by
  rw [remapMethod, Edit.effect_map]
  cases h with
  | implicit hmain =>
    rw [(remapMain_of_ungoverned ⟨m.ref mixin, interfaces⟩ _ _ hmain).2]
    exact (effect_settleOverwrite _ t implicitOverwriteLabel).after _
  | @explicit index node hmain hnode hknown haliases hagree =>
    have hrun : r.remapOverwrite ⟨m.ref mixin, interfaces⟩ t node =
        (node.editElements (r.remapOverwriteElement ⟨m.ref mixin, interfaces⟩ t)).andThen
          fun edited => .check (r.settleOverwrite _ t overwriteLabel) edited := rfl
    obtain ⟨-, hsettled⟩ := (editsAliases_overwrite hknown).settles haliases _ hrun
    have heffect := (hsettled hagree).1
    rw [(remapMain_of_governed ⟨m.ref mixin, interfaces⟩ _ _ hmain hnode).2]
    refine Overwrites.after ?_ _
    exact heffect ▸ effect_settleOverwrite _ t overwriteLabel

end MixinNaming.Remapper
