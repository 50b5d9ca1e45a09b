import MixinNaming.Proofs.Frame.References
/-! Injection points, slices and the annotations of handlers stay in their frames. An @At is edited
in its arguments, its target and its @Desc, and a rule edits the one element that it is given; all
else stays as it is written. -/
namespace MixinNaming

open Edit

theorem constantEntries_length (n : Naming) (location : String) (found : Bool)
    (entries : List String) :
    (ConstantArguments.editFrom n location found entries).value.length = entries.length := by
  induction entries generalizing found with
  | nil =>
    cases found with
    | true => rfl
    | false => rfl
  | cons entry rest ih =>
    rw [ConstantArguments.editFrom]
    split
    · exact congrArg (· + 1) (ih found)
    · split
      · rfl
      · split
        · rfl
        · exact congrArg (· + 1) (ih true)

namespace InjectionPoint

theorem editEntries_length (p : InjectionPoint) (r : Remapper) (location : String)
    (entries : List String) :
    (p.editEntries r location entries).value.length = entries.length := by
  cases p with
  | invoke => exact length_each _ entries
  | field => exact length_each _ entries
  | constant => exact constantEntries_length r.naming location false entries
  | head | «return» | tail =>
    rw [editEntries]
    split
    · rfl
    · rfl

theorem remapArguments_frame (p : InjectionPoint) (r : Remapper) (location : String)
    (arguments : Option AnnotationValue) :
    Option.Rel ValueFrame arguments (p.remapArguments r location arguments).value := by
  cases arguments with
  | none =>
    rw [remapArguments]
    split
    · exact .none
    · exact .none
  | some v =>
    rw [remapArguments]
    split
    · exact .some (.same v)
    · next texts htexts =>
      exact .some (.withStrings htexts (editEntries_length p r location texts))

end InjectionPoint

namespace Remapper

variable (r : Remapper) (location : String) (t : TargetSet)

section At

variable {node : Annotation} (hdesc : node.desc = Vocabulary.atType)
include hdesc

theorem remapAtArguments_frame (value : String) :
    NodeFrame node (r.remapAtArguments location value node).value := by
  rw [remapAtArguments]
  split
  · rw [value_check]
    exact .same node
  · next point _ =>
    have hframe := point.remapArguments_frame r (insideAt "@At annotation" location)
      (node.get? "args")
    dsimp only [Edit.map]
    generalize (point.remapArguments r (insideAt "@At annotation" location)
      (node.get? "args")).value = edited at hframe ⊢
    cases hargs : node.get? "args" with
    | none =>
      rw [hargs] at hframe
      cases hframe
      exact .same node
    | some v =>
      rw [hargs] at hframe
      cases hframe with
      | some hvw =>
        refine .set hargs ?_
        rw [hdesc]
        exact .edited (by decide) hvw

theorem remapAtTarget_frame : NodeFrame node (r.remapAtTarget location node).value := by
  rw [remapAtTarget]
  split
  · exact .same node
  · next text htarget =>
    refine rel_given (.same node) fun resolved _ => .set htarget ?_
    rw [hdesc]
    exact .edited (by decide) (.string text resolved)
  · exact .same node

theorem remapAtDesc_frame (value : String) :
    NodeFrame node (r.remapAtDesc location value t node).value := by
  rw [remapAtDesc]
  split
  · exact .same node
  · next desc hnested =>
    refine .set hnested ?_
    rw [hdesc]
    exact .edited (by decide) (.nested (r.remapDesc_frame _ t _ desc))
  · exact .same node

end At

theorem desc_of_readAtValue {node : Annotation} {value : String}
    (h : (r.readAtValue location node).result = .ok value) : node.desc = Vocabulary.atType := by
  rw [readAtValue] at h
  dsimp only at h
  split at h
  · cases h
  · next hdesc => exact Decidable.not_not.1 hdesc

theorem remapAtIn_frame (node : Annotation) :
    NodeFrame node (r.remapAtIn location t node).value := by
  rw [remapAtIn]
  refine rel_given (.same node) fun value hvalue => ?_
  have hdesc := r.desc_of_readAtValue location hvalue
  refine rel_andThen NodeFrame.trans ?_ fun edited h => ?_
  · refine rel_andThen NodeFrame.trans ?_ fun edited h => ?_
    · exact r.remapAtArguments_frame location hdesc value
    · exact r.remapAtTarget_frame location (h.desc_eq.trans hdesc)
  · exact r.remapAtDesc_frame location t (h.desc_eq.trans hdesc) value

theorem remapSliceElement_frame (place name : String) (v : AnnotationValue) :
    ElementFrame Vocabulary.sliceType name v
      (r.remapSliceElement location place t name v).value := by
  unfold remapSliceElement
  split
  · exact .fixed _ _ _
  · split
    · next hname =>
      have heditable : isEditable Vocabulary.sliceType name = true := by
        rcases hname with rfl | rfl
        · decide
        · decide
      split
      · next node => exact .edited heditable (.nested (r.remapAtIn_frame _ t node))
      · exact .fixed _ _ _
    · rw [value_check]
      exact .fixed _ _ _

theorem remapSlice_frame (owner member : String) (ordinal : Option Nat) (node : Annotation) :
    NodeFrame node (r.remapSlice owner member ordinal t node).value := by
  rw [remapSlice]
  split
  · exact .same node
  · next hdesc =>
    refine .editElements fun name v => ?_
    rw [Decidable.not_not.1 hdesc]
    exact r.remapSliceElement_frame _ t _ name v

end Remapper

namespace ElementRule

variable (h : Handler) (element : String)

theorem onNode_frame {f : Annotation → Edit Annotation}
    (hf : ∀ node, NodeFrame node (f node).value) (v : AnnotationValue) :
    ValueFrame v (onNode h element f v).value := by
  cases v with
  | nested node => exact .nested (hf node)
  | _ => exact .same _

theorem onNodes_frame {f : Option Nat → Annotation → Edit Annotation}
    (hf : ∀ ordinal node, NodeFrame node (f ordinal node).value) (v : AnnotationValue) :
    ValueFrame v (onNodes h element f v).value := by
  refine ValueFrame.withItems (forall₂_eachIndexed .same (fun i item => ?_) v.items)
  exact onNode_frame h element (hf (some i)) item

theorem remap_frame (rule : ElementRule) (r : Remapper) (v : AnnotationValue) :
    ValueFrame v (rule.remap r h element v).value := by
  cases rule with
  | unchanged => exact .same v
  | singleTarget =>
    rw [remap]
    split
    · exact .same v
    · exact r.remapSelectorList_frame _ _ _ v
  | listTarget => exact r.remapSelectorList_frame _ _ _ v
  | injectListTarget =>
    exact rel_given (.same v) fun filter _ => r.remapSelectorList_frame _ _ filter v
  | singleAt => exact onNode_frame h element (r.remapAtIn_frame _ _) v
  | atList => exact onNodes_frame h element (fun _ => r.remapAtIn_frame _ _) v
  | singleSlice =>
    exact onNode_frame h element (r.remapSlice_frame h.targets h.mixin h.signature none) v
  | sliceList =>
    exact onNodes_frame h element (r.remapSlice_frame h.targets h.mixin h.signature) v

end ElementRule

/-- A handler annotation is edited where its table has a rule that edits. -/
theorem isEditable_injector (kind : InjectorKind) (name : String) :
    isEditable kind.descriptor name =
      match kind.rules.rule? name with
      | none | some .unchanged => false
      | some _ => true := by
  have hkind := AnnotationKind.ofDescriptor?_descriptor (.injector kind)
  rw [AnnotationKind.descriptor] at hkind
  have hdesc : kind.descriptor ∉ [Vocabulary.descType, Vocabulary.atType, Vocabulary.sliceType,
      Vocabulary.mixin] := by
    cases kind <;> decide
  simp only [List.mem_cons, List.not_mem_nil, or_false, not_or] at hdesc
  obtain ⟨h1, h2, h3, h4⟩ := hdesc
  rw [isEditable, if_neg h1, if_neg h2, if_neg h3, if_neg h4]
  cases hrule : kind.rules.rule? name with
  | none => simp only [hkind, hrule]
  | some rule => cases rule <;> simp only [hkind, hrule]

/-- A hook adds nothing, or it adds a target to an annotation that states none. -/
theorem Hook.apply_value (hook : Hook) (h : Handler) (node : Annotation) :
    (hook.apply h node).value = node ∨
      hook = .implicitTarget ∧ node.contains "method" = false ∧ node.contains "target" = false ∧
        ∃ d, (hook.apply h node).value = node.add "target" (.nested d) := by
  cases hook with
  | requireCallback => exact .inl (value_check _ node)
  | implicitTarget =>
    rw [apply]
    by_cases hstated : (node.contains "method" || node.contains "target") = true
    · rw [if_pos hstated]
      exact .inl rfl
    · rw [if_neg hstated]
      rw [Bool.not_eq_true, Bool.or_eq_false_iff] at hstated
      obtain ⟨hmethod, htarget⟩ := hstated
      rw [replace, given]
      split
      · exact .inr ⟨rfl, hmethod, htarget, _, Annotation.set_eq_add htarget⟩
      · exact .inl rfl

namespace RuleSet

theorem remapElement_frame (kind : InjectorKind) (r : Remapper) (h : Handler) (name : String)
    (v : AnnotationValue) :
    ElementFrame kind.descriptor name v
      (kind.rules.remapElement r h kind.descriptor name v).value := by
  have heditable := isEditable_injector kind name
  rw [remapElement]
  cases hrule : kind.rules.rule? name with
  | none =>
    dsimp only
    rw [value_check]
    exact .fixed _ _ _
  | some rule =>
    by_cases hfixed : rule = .unchanged
    · rw [hfixed]
      exact .fixed _ _ _
    · have hname : isEditable kind.descriptor name = true := by
        rw [heditable, hrule]
        cases rule <;> first | rfl | exact absurd rfl hfixed
      exact .edited hname (rule.remap_frame h name r v)

theorem implicitTarget_mem (kind : InjectorKind) :
    Hook.implicitTarget ∈ kind.rules.hooks ↔ kind = .canonicalOverwrite := by
  cases kind <;> decide

/-- The hooks add at most one target, at the end, and only where none is stated. -/
theorem applyHooks_value (h : Handler) (hooks : List Hook) (node : Annotation) :
    (applyHooks h hooks node).value = node ∨
      Hook.implicitTarget ∈ hooks ∧ node.contains "method" = false ∧
        node.contains "target" = false ∧
          ∃ d, (applyHooks h hooks node).value = node.add "target" (.nested d) := by
  induction hooks generalizing node with
  | nil => exact .inl rfl
  | cons hook rest ih =>
    rw [applyHooks, Edit.andThen]
    rcases hook.apply_value h node with happly | ⟨rfl, hmethod, htarget, d, happly⟩
    · split
      · exact .inl happly
      · rw [happly]
        refine (ih node).imp_right fun hlater => ?_
        exact ⟨List.mem_cons_of_mem _ hlater.1, hlater.2⟩
    · refine .inr ⟨List.mem_cons_self, hmethod, htarget, d, ?_⟩
      split
      · exact happly
      · rw [happly]
        -- the target that was added keeps later hooks from adding another
        refine (ih (node.add "target" (.nested d))).resolve_right fun hlater => ?_
        have hadded := node.contains_add "target" (.nested d)
        rw [hadded] at hlater
        cases hlater.2.2.1

end RuleSet

end MixinNaming
