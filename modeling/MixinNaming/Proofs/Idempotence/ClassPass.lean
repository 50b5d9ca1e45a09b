import MixinNaming.Proofs.Frame.ClassPass
import MixinNaming.Proofs.Idempotence.Members
import MixinNaming.Proofs.Locality.Renames
/-! A whole class in a run that renames nothing. The targets are spelt anew but stay the same, so a
second run looks for members where the first one did, and finds nothing left to change. -/
namespace MixinNaming

open Edit (Idempotent Leaves given_fault_eq_none)

namespace Declaration

variable {r : Remapper} (hn : r.naming = MappingTable.empty.naming) {mixin name : String}
  {v : AnnotationValue}
include hn

theorem renameLiteral_value (h : (renameLiteral r.naming mixin v).fault = none) :
    (renameLiteral r.naming mixin v).value = v := by
  rw [hn] at h ⊢
  cases v with
  | type t =>
    rw [renameLiteral] at h ⊢
    split
    · rfl
    · rfl
  | _ => cases h

/-- An element stays, unless it holds names as texts, which are spelt anew. -/
theorem remapElement_value (h : (remapElement r mixin name v).fault = none) :
    (remapElement r mixin name v).value = v ∨ name = "targets" ∧ ∃ written,
      v.strings? = some written ∧ (remapElement r mixin name v).value.strings? =
        some (written.map (renameText r.naming)) := by
  unfold remapElement at h ⊢
  by_cases hvalue : name = "value"
  · simp only [if_pos hvalue] at h ⊢
    have hsame := Edit.value_each (fun item _ => renameLiteral_value hn) h
    rw [Edit.map]
    dsimp only
    rw [hsame]
    exact .inl v.withItems_items
  · simp only [if_neg hvalue] at h ⊢
    by_cases htargets : name = "targets"
    · simp only [if_pos htargets] at h ⊢
      cases hv : v.strings? with
      | none =>
        simp only [hv] at h
        cases h
      | some written =>
        refine .inr ⟨htargets, written, rfl, AnnotationValue.strings?_withStrings ?_⟩
        rw [AnnotationValue.strings?_eq_some.1 hv, List.length_map, List.length_map]
    · simp only [if_neg htargets]
      split
      · exact .inl rfl
      · exact .inl (Edit.value_check _ v)

theorem remapElement_idempotent (mixin name : String) :
    Idempotent (remapElement r mixin name) := by
  intro v h
  rcases remapElement_value hn h with hsame | ⟨rfl, written, -, hrenamed⟩
  · rw [hsame]
    exact ⟨h, hsame⟩
  · generalize (remapElement r mixin "targets" v).value = w at hrenamed
    have hkeep : remapElement r mixin "targets" w =
        .keep (w.withStrings ((written.map (renameText r.naming)).map (renameText r.naming))) := by
      rw [remapElement, if_neg (by decide), if_pos rfl, hrenamed]
    have hagain : (written.map (renameText r.naming)).map (renameText r.naming) =
        written.map (renameText r.naming) := by
      rw [hn, List.map_map]
      exact List.map_congr_left fun text _ => MappingTable.renameText_renameText text
    rw [hkeep, hagain, AnnotationValue.withStrings_self hrenamed]
    exact .keep w

/-- An element of a declaration names the classes that it has named before. -/
theorem elementTargets_remapElement (h : (remapElement r mixin name v).fault = none) :
    elementTargets (name, (remapElement r mixin name v).value) = elementTargets (name, v) := by
  rcases remapElement_value hn h with hsame | ⟨rfl, written, hv, hrenamed⟩
  · rw [hsame]
  · have hslashed : (written.map (renameText r.naming)).map Text.slashed =
        written.map Text.slashed := by
      rw [hn, List.map_map]
      exact List.map_congr_left fun text _ => MappingTable.slashed_renameText text
    have hnames : ∀ w, elementTargets ("targets", w) = (w.strings?.getD []).map Text.slashed := by
      intro w
      rfl
    rw [hnames, hnames, hv, hrenamed]
    exact hslashed

theorem remap_idempotent (mixin : String) : Idempotent (remap r mixin) := by
  intro a h
  by_cases hmixin : isMixin a = true
  · have helements := Idempotent.editElements (remapElement_idempotent hn mixin)
    exact helements.leaves_of_eq (if_pos hmixin) (if_pos hmixin) h
  · have hother : (remap r mixin a).value = a :=
      (remap_other r mixin (Bool.eq_false_iff.2 hmixin)).1
    rw [hother]
    exact ⟨h, hother⟩

theorem targetNames_remap {a : Annotation} (h : (remap r mixin a).fault = none) :
    isMixin (remap r mixin a).value = isMixin a ∧
      (isMixin a = true → (remap r mixin a).value.elements.flatMap elementTargets =
        a.elements.flatMap elementTargets) := by
  by_cases hmixin : isMixin a = true
  · have hedit : remap r mixin a = a.editElements (remapElement r mixin) := if_pos hmixin
    rw [hedit] at h ⊢
    refine ⟨rfl, fun _ => ?_⟩
    have hedited := congrArg Edit.value (Edit.each_of_completed h)
    change (Edit.each _ a.elements).value.flatMap elementTargets = _
    rw [hedited, List.flatMap_map]
    refine List.flatMap_congr fun e he => ?_
    have hfault : (remapElement r mixin e.1 e.2).fault = none := Edit.each_fault_eq_none.1 h e he
    exact elementTargets_remapElement hn hfault
  · have hother : (remap r mixin a).value = a :=
      (remap_other r mixin (Bool.eq_false_iff.2 hmixin)).1
    rw [hother]
    exact ⟨rfl, fun _ => rfl⟩

theorem targets_remap {annotations : List Annotation}
    (h : (Edit.each (remap r mixin) annotations).fault = none) :
    targets (Edit.each (remap r mixin) annotations).value = targets annotations ∧
      (Edit.each (remap r mixin) annotations).value.any isMixin = annotations.any isMixin := by
  have hnames : List.Forall₂ (fun a b => isMixin b = isMixin a ∧ (isMixin a = true →
      b.elements.flatMap elementTargets = a.elements.flatMap elementTargets)) annotations
        (Edit.each (remap r mixin) annotations).value :=
    Edit.forall₂_each_of_completed (fun _ _ => targetNames_remap hn) h
  generalize (Edit.each (remap r mixin) annotations).value = renamed at hnames
  have hcons : ∀ (a : Annotation) (rest : List Annotation), targetNames (a :: rest) =
      (if isMixin a = true then a.elements.flatMap elementTargets else []) ++ targetNames rest := by
    intro a rest
    rw [targetNames, targetNames, List.filter_cons]
    split
    · rfl
    · rfl
  have hsame : targetNames renamed = targetNames annotations ∧
      renamed.any isMixin = annotations.any isMixin := by
    clear h
    induction hnames with
    | nil => exact ⟨rfl, rfl⟩
    | cons hab _ ih =>
      rw [hcons, hcons, List.any_cons, List.any_cons, hab.1, ih.1, ih.2]
      refine ⟨?_, rfl⟩
      split
      · next hmixin => rw [hab.2 hmixin]
      · rfl
  exact ⟨congrArg TargetSet.ofList hsame.1, hsame.2⟩

end Declaration

namespace Remapper

variable {r : Remapper}

/-- A class whose declarations and members are left as they are is left as it is. -/
theorem remapClass_leaves {c : MixinClass}
    (hdeclarations : (Edit.each (Declaration.remap r c.name) c.annotations).Leaves c.annotations)
    (hmembers : c.annotations.any Declaration.isMixin = true →
      (r.remapMembers (Declaration.targets c.annotations) c).Leaves c) :
    (r.remapClass c).Leaves c := by
  refine .andThen (hdeclarations.map fun annotations => { c with annotations }) ?_
  split
  · next hmixin => exact hmembers hmixin
  · exact .keep c

theorem remapClass_idempotent (hr : r.Unmapped) : Idempotent r.remapClass := by
  intro c h
  obtain ⟨hdeclarations, hmembers⟩ := Edit.andThen_fault_eq_none.1 h
  have hdeclared := (Declaration.remap_idempotent hr.naming c.name).each c.annotations hdeclarations
  obtain ⟨htargets, hmixin⟩ := Declaration.targets_remap hr.naming hdeclarations
  by_cases hany : c.annotations.any Declaration.isMixin = true
  · rw [if_pos hany] at hmembers
    have hagain := remapMembers_idempotent _ hr _ hmembers
    obtain ⟨-, -, hedited⟩ := remapMembers_of_completed _ hmembers
    have hvalue : (r.remapClass c).value = (r.remapMembers (Declaration.targets c.annotations)
        ((Edit.each (Declaration.remap r c.name) c.annotations).map fun annotations =>
          { c with annotations }).value).value := by
      rw [remapClass, Edit.andThen_of_none hdeclarations]
      dsimp only
      rw [if_pos hany]
    rw [hvalue]
    generalize (r.remapMembers (Declaration.targets c.annotations) _).value = m at hagain hedited ⊢
    have hname : m.name = c.name := by
      rw [hedited]
      rfl
    have hannotations : m.annotations =
        (Edit.each (Declaration.remap r c.name) c.annotations).value := by
      rw [hedited]
      rfl
    refine remapClass_leaves ?_ fun _ => ?_
    · rw [hname, hannotations]
      exact hdeclared
    · rw [hannotations, htargets]
      exact hagain
  · have hvalue := (remapClass_of_no_mixin r c (Bool.eq_false_iff.2 hany)).1
    rw [hvalue]
    exact ⟨h, hvalue⟩

theorem remapClass_unmapped_silent (hn : r.naming = MappingTable.empty.naming) (c : MixinClass) :
    (r.remapClass c).Silent :=
  Paired.remapClass_of_unmapped (fun t => (coupled_silent r t).toPaired) hn c

end Remapper

/-- Which interfaces are protected makes no difference to a run that renames nothing. -/
theorem remapClass_unmapped_unguarded (h : Hierarchy) (p : Policy)
    (protects : String → TargetSet → Bool) (c : MixinClass) :
    Remapper.remapClass ⟨MappingTable.empty.naming, h, { p with protects }⟩ c =
      Remapper.remapClass ⟨MappingTable.empty.naming, h, p⟩ c := by
  have hpaired : ∀ t, Paired Coupling.equal ⟨MappingTable.empty.naming, h, { p with protects }⟩
      ⟨MappingTable.empty.naming, h, p⟩ t t :=
    fun t => .of_policies (p := { p with protects }) (q := p) (fun _ _ => rfl) rfl t
  exact Paired.remapClass_of_unmapped hpaired rfl c

/-- With an empty mapping table a run brings a class into a form that further runs leave as it is.
Selectors have been written out in full by then, names are spelt in one way and the types of each
@Desc are listed one by one. Neither run decides a rename, so which interfaces are protected does
not matter. -/
theorem unmapped_run_is_idempotent (h : Hierarchy) (hh : h.WellFormed) (p : Policy)
    (c : MixinClass)
    (hrun : (Remapper.remapClass ⟨MappingTable.empty.naming, h, p⟩ c).fault = none) :
    let run := Remapper.remapClass ⟨MappingTable.empty.naming, h, p⟩
    Event.renames (run c).events = [] ∧
      (∀ protects, Remapper.remapClass ⟨MappingTable.empty.naming, h, { p with protects }⟩ c =
        run c) ∧
      (run (run c).value).fault = none ∧ (run (run c).value).value = (run c).value ∧
      Event.renames (run (run c).value).events = [] := by
  intro run
  let r : Remapper := ⟨MappingTable.empty.naming, h, p⟩
  have hr : r.Unmapped := ⟨rfl, hh⟩
  have hagain := Remapper.remapClass_idempotent hr c hrun
  refine ⟨Remapper.remapClass_unmapped_silent hr.naming c, fun protects => ?_, hagain.fault,
    hagain.value, Remapper.remapClass_unmapped_silent hr.naming _⟩
  exact remapClass_unmapped_unguarded h p protects c

/-- A handler whose target is written by its name and by a @Desc that lists both arguments at once,
and whose point names a class in a mixed spelling. -/
theorem second_run_changes_nothing :
    let h := Hierarchy.empty.withClass "a/b/T" (ClassInfo.empty.declaring "run" "(II)V")
    let point : Annotation := ⟨Vocabulary.atType,
      [("value", .string "CONSTANT"), ("args", .string "classValue=a/b.C")]⟩
    let desc : Annotation := ⟨Vocabulary.descType,
      [("value", .string "run"), ("args", .type ⟨"II"⟩)]⟩
    let c : MixinClass := ⟨"m/M", ["a/I"], [⟨Vocabulary.mixin, [("targets", .string "a.b/T")]⟩],
      [⟨"on", "()V", [⟨Vocabulary.redirect,
        [("method", .array [.string " run", .nested desc]), ("at", .nested point)]⟩]⟩], []⟩
    let run := Remapper.remapClass ⟨MappingTable.empty.naming, h, .failFast⟩
    (run c).fault = none ∧
      (run c).value.annotations.map
        (fun a => (a.get? "targets").bind AnnotationValue.string?) = [some "a.b.T"] ∧
      ((run c).value.methods.flatMap Member.annotations).map
        (fun a => (a.get? "method").map fun v => v.items.map AnnotationValue.string?) =
          [some [some "La/b/T;run(II)V", none]] ∧
      (run (run c).value).fault = none ∧ (run (run c).value).value = (run c).value ∧
      Event.renames (run (run c).value).events = [] := by
  intro h point desc c run
  have hh : h.WellFormed := by
    have hmember :
        Selector.parse "La/b/T;run(II)V" = .ok (.ofMember ⟨"a/b/T", "run", "(II)V"⟩) := by
      decide +kernel
    intro e he m hm
    cases List.mem_singleton.1 he
    cases List.mem_singleton.1 hm
    exact (Selector.parse_eq_ok_iff.1 hmember).2
  have hrun : (run c).fault = none := by decide +kernel
  obtain ⟨-, -, hagain⟩ := unmapped_run_is_idempotent h hh .failFast c hrun
  exact ⟨hrun, by decide +kernel, by decide +kernel, hagain⟩

end MixinNaming
