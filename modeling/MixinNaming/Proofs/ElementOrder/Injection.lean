import MixinNaming.Proofs.ElementOrder.References
/-! Injection points, slices and the annotations of handlers whose elements stand in another order.
A slice and a handler annotation are edited element by element, an @At by the names of its elements.
The target that a hook appends stays behind all elements that are arranged. -/
namespace MixinNaming

open Annotation (contains_arrange desc_arrange get?_arrange_of_getElem?
  get?_arrange_of_none mem_names_of_get? set_eq_add)
open Edit (Matches)

variable {r : Remapper} {location : String} {t : TargetSet} {node : Annotation} {ρ : Arrangement}

/-- Arguments hold nothing that could be arranged, or they are refused. -/
theorem InjectionPoint.remapArguments_matches (p : InjectionPoint)
    (arguments : Option AnnotationValue) (ρ : Arrangement) :
    Matches (Option.map (·.arrange ρ)) (p.remapArguments r location arguments)
      (p.remapArguments r location (arguments.map (·.arrange ρ))) := by
  cases arguments with
  | none =>
    refine .refl fun _ => ?_
    rw [remapArguments]
    split
    · rfl
    · rfl
  | some v =>
    rw [Option.map_some, remapArguments, remapArguments, AnnotationValue.strings?_arrange]
    cases htexts : v.strings? with
    | none => exact .stop _ _ _ _
    | some texts =>
      rw [AnnotationValue.fixed_of_strings? htexts ρ]
      refine .refl fun _ => congrArg some ?_
      exact AnnotationValue.fixed_withStrings htexts
        (p.editEntries_length r location texts) ρ

namespace Remapper

section At

theorem readAtValue_matches (hnames : node.desc = Vocabulary.atType → node.names.Nodup)
    (ρ : Arrangement) :
    (r.readAtValue location node).Matches (r.readAtValue location (node.arrange ρ)) := by
  rw [readAtValue, readAtValue, Annotation.desc_arrange]
  refine .ite (fun _ => .refl _) fun hdesc => ?_
  obtain ⟨i, hi⟩ := Annotation.exists_get?_arrange (hnames (not_not.1 hdesc)) ρ "value"
  rw [hi]
  refine .bind (reportNames_matches _ _ node ρ) fun _ _ => ?_
  cases node.get? "value" with
  | none => exact .refl _
  | some v =>
    cases v with
    | _ => exact .refl _

variable (hnames : node.names.Nodup) (ρ)
include hnames

theorem remapAtArguments_matches (value : String) :
    Matches (·.arrange ρ) (r.remapAtArguments location value node)
      (r.remapAtArguments location value (node.arrange ρ)) := by
  rw [remapAtArguments, remapAtArguments]
  cases r.policy.point? value with
  | none => exact .check (.refl _) rfl
  | some point =>
    cases hargs : node.get? "args" with
    | none =>
      have hframe := point.remapArguments_frame r (insideAt "@At annotation" location) none
      dsimp only
      rw [get?_arrange_of_none hargs]
      refine (point.remapArguments_matches none ρ).map fun _ => ?_
      generalize (point.remapArguments r (insideAt "@At annotation" location) none).value = edited
        at hframe ⊢
      cases hframe
      rfl
    | some v =>
      obtain ⟨i, hi⟩ := Annotation.exists_getElem?_of_get? hargs
      dsimp only
      rw [get?_arrange_of_getElem? hnames hi]
      refine (point.remapArguments_matches (some v) (ρ.inside i)).map fun _ => ?_
      cases (point.remapArguments r (insideAt "@At annotation" location) (some v)).value with
      | none => rfl
      | some w => exact Annotation.set_arrange hnames hi w

theorem remapAtTarget_matches : Matches (·.arrange ρ) (r.remapAtTarget location node)
    (r.remapAtTarget location (node.arrange ρ)) := by
  obtain ⟨i, hi⟩ := Annotation.exists_get?_arrange hnames ρ "target"
  rw [remapAtTarget, remapAtTarget, hi]
  cases htarget : node.get? "target" with
  | none => exact .keep rfl
  | some v =>
    cases v with
    | string text =>
      refine .given (.refl _) fun resolved _ => .keep ?_
      exact Annotation.set_arrange_of_fixed hnames (mem_names_of_get? htarget)
        (AnnotationValue.fixed_string resolved)
    | _ => exact .stop _ _ _ _

theorem remapAtDesc_matches (value : String)
    (hdesc : ∀ v, node.get? "desc" = some v → v.Distinct) :
    Matches (·.arrange ρ) (r.remapAtDesc location value t node)
      (r.remapAtDesc location value t (node.arrange ρ)) := by
  rw [remapAtDesc, remapAtDesc]
  cases hvalue : node.get? "desc" with
  | none =>
    rw [get?_arrange_of_none hvalue]
    exact .keep rfl
  | some v =>
    obtain ⟨i, hi⟩ := Annotation.exists_getElem?_of_get? hvalue
    rw [get?_arrange_of_getElem? hnames hi]
    cases v with
    | nested desc =>
      have hdistinct : desc.desc = Vocabulary.descType → desc.names.Nodup :=
        fun htype => (hdesc _ hvalue).names (by simp [htype])
      refine (r.remapDesc_matches _ t _ hdistinct (ρ.inside i)).map fun _ => ?_
      exact Annotation.set_arrange hnames hi (.nested _)
    | _ => exact .stop _ _ _ _

end At

/-- The @Desc stays as it is until its own turn. -/
theorem get?_desc_remapAtTarget (location value : String) (node : Annotation) :
    ((r.remapAtArguments location value node).andThen (r.remapAtTarget location)).value.get?
      "desc" = node.get? "desc" := by
  rcases Edit.value_andThen (r.remapAtArguments location value node)
    (r.remapAtTarget location) with heq | heq
  · rw [heq, get?_remapAtArguments (by decide)]
  · rw [heq, get?_remapAtTarget (by decide), get?_remapAtArguments (by decide)]

theorem remapAtIn_matches (location : String) (t : TargetSet)
    (hnode : (AnnotationValue.nested node).Distinct) (ρ : Arrangement) :
    Matches (·.arrange ρ) (r.remapAtIn location t node)
      (r.remapAtIn location t (node.arrange ρ)) := by
  have hat : node.desc = Vocabulary.atType → node.names.Nodup :=
    fun hdesc => hnode.names (by simp [hdesc])
  refine .given (readAtValue_matches hat ρ) fun value hread => ?_
  have hdesc := r.desc_of_readAtValue location hread
  have hnames := hat hdesc
  -- the names stay, so that each step finds what it looks for
  have harguments := r.remapAtArguments_frame location hdesc value
  have hframe := Edit.rel_andThen NodeFrame.trans harguments fun edited h =>
    r.remapAtTarget_frame location (h.desc_eq.trans hdesc)
  refine .andThen (.andThen (remapAtArguments_matches ρ hnames value) fun _ => ?_) fun _ => ?_
  · refine remapAtTarget_matches ρ ?_
    rwa [harguments.names_eq]
  · refine remapAtDesc_matches ρ ?_ value fun v hv => ?_
    · rwa [hframe.names_eq]
    · rw [get?_desc_remapAtTarget] at hv
      obtain ⟨i, hi⟩ := Annotation.exists_getElem?_of_get? hv
      exact hnode.element (List.mem_of_getElem? hi)

theorem remapSliceElement_matches (location place name : String) (t : TargetSet)
    {v : AnnotationValue} (hv : v.Distinct) (ρ : Arrangement) :
    Matches (·.arrange ρ) (r.remapSliceElement location place t name v)
      (r.remapSliceElement location place t name (v.arrange ρ)) := by
  unfold remapSliceElement
  refine .ite (fun _ => .keep rfl) fun _ => ?_
  refine .ite (fun _ => ?_) fun _ => .check (.refl _) rfl
  cases v with
  | nested node => exact .nested (remapAtIn_matches _ t hv ρ)
  | _ => exact .stop _ _ _ _

theorem remapSlice_matches (owner member : String) (ordinal : Option Nat) (t : TargetSet)
    (hnode : (AnnotationValue.nested node).Distinct) (ρ : Arrangement) :
    Matches (·.arrange ρ) (r.remapSlice owner member ordinal t node)
      (r.remapSlice owner member ordinal t (node.arrange ρ)) := by
  rw [remapSlice, remapSlice, Annotation.desc_arrange]
  refine .ite (fun _ => .stop _ _ _ _) fun _ => .editElements node fun i e he => ?_
  exact remapSliceElement_matches _ _ e.1 t (hnode.element he) (ρ.inside i)

end Remapper

namespace ElementRule

variable {h : Handler} {element : String} {v : AnnotationValue}

theorem onNode_matches {f : Annotation → Edit Annotation} (hv : v.Distinct)
    (hf : ∀ node : Annotation, (AnnotationValue.nested node).Distinct → ∀ ρ,
      Matches (·.arrange ρ) (f node) (f (node.arrange ρ))) (ρ : Arrangement) :
    Matches (·.arrange ρ) (onNode h element f v) (onNode h element f (v.arrange ρ)) := by
  cases v with
  | nested node => exact .nested (hf node hv ρ)
  | _ => exact .stop _ _ _ _

theorem onNodes_matches {f : Option Nat → Annotation → Edit Annotation} (hv : v.Distinct)
    (hf : ∀ ordinal, ∀ node : Annotation, (AnnotationValue.nested node).Distinct → ∀ ρ,
      Matches (·.arrange ρ) (f ordinal node) (f ordinal (node.arrange ρ))) (ρ : Arrangement) :
    Matches (·.arrange ρ) (onNodes h element f v) (onNodes h element f (v.arrange ρ)) :=
  .items v fun i _ hx => onNode_matches (hv.item hx) (hf (some i)) _

theorem remap_matches (rule : ElementRule) (r : Remapper) (h : Handler) (element : String)
    (hv : v.Distinct) (ρ : Arrangement) :
    Matches (·.arrange ρ) (rule.remap r h element v)
      (rule.remap r h element (v.arrange ρ)) := by
  have hat : ∀ ordinal {node}, (AnnotationValue.nested node).Distinct → ∀ ρ,
      Matches (·.arrange ρ) (r.remapAt h.mixin h.signature ordinal h.targets node)
        (r.remapAt h.mixin h.signature ordinal h.targets (node.arrange ρ)) :=
    fun _ _ => Remapper.remapAtIn_matches _ h.targets
  have hslice : ∀ ordinal {node}, (AnnotationValue.nested node).Distinct → ∀ ρ,
      Matches (·.arrange ρ) (r.remapSlice h.mixin h.signature ordinal h.targets node)
        (r.remapSlice h.mixin h.signature ordinal h.targets (node.arrange ρ)) :=
    fun ordinal _ => Remapper.remapSlice_matches h.mixin h.signature ordinal h.targets
  cases rule with
  | unchanged => exact .keep rfl
  | singleTarget =>
    have harray : (v.arrange ρ).array?.isSome = v.array?.isSome := by
      cases v with
      | _ => rfl
    rw [remap, remap, harray]
    refine .ite (fun _ => .stop _ _ _ _) fun _ => ?_
    exact Remapper.remapSelectorList_matches _ _ hv ρ
  | listTarget => exact Remapper.remapSelectorList_matches _ _ hv ρ
  | injectListTarget =>
    exact .given (.refl _) fun filter _ => Remapper.remapSelectorList_matches _ filter hv ρ
  | singleAt => exact onNode_matches hv (fun _ hnode => hat none hnode) ρ
  | atList => exact onNodes_matches hv (fun ordinal _ hnode => hat ordinal hnode) ρ
  | singleSlice => exact onNode_matches hv (fun _ hnode => hslice none hnode) ρ
  | sliceList => exact onNodes_matches hv (fun ordinal _ hnode => hslice ordinal hnode) ρ

end ElementRule

/-- The arrangement is one of the elements that the annotation has. What may stand behind them stays
where it is and as it is. -/
structure Arrangement.Concerns (ρ : Arrangement) (node : Annotation) : Prop where
  own : (ρ []).size ≤ node.elements.length
  beyond : ∀ i place, node.elements.length ≤ i → (ρ (i :: place)).size = 0

namespace Annotation

variable {name : String} {v : AnnotationValue}

theorem arrange_of_fixed (hsize : (ρ []).size = 0) (h : ∀ e ∈ node.elements, e.2.Fixed) :
    node.arrange ρ = node := by
  obtain ⟨desc, elements⟩ := node
  have hplaces : ∀ p ∈ elements.zipIdx, arrangeElement ρ p.2 p.1 = p.1 := by
    intro p hp
    rw [arrangeElement, h p.1 (List.fst_mem_of_mem_zipIdx hp)]
  have hnone : ∀ elements : List (String × AnnotationValue),
      (ρ []).apply elements = elements := by
    intro elements
    have happend : (ρ []).apply ([] ++ elements) = (ρ []).apply [] ++ elements :=
      Shuffle.apply_append (Nat.le_of_eq hsize) elements
    have hnil : (ρ []).apply ([] : List (String × AnnotationValue)) = [] :=
      List.perm_nil.1 ((ρ []).apply_perm [])
    rwa [hnil] at happend
  rw [arrange_eq, List.map_congr_left hplaces, List.zipIdx_map_fst, hnone]

theorem add_arrange (hρ : ρ.Concerns node)
    (hv : v.arrange (ρ.inside node.elements.length) = v) :
    (node.arrange ρ).add name v = (node.add name v).arrange ρ := by
  have hlength : (ρ []).size ≤
      (node.elements.zipIdx.map fun p => arrangeElement ρ p.2 p.1).length := by
    rw [List.length_map, List.length_zipIdx]
    exact hρ.own
  rw [arrange_eq, arrange_eq, add, add, List.zipIdx_append, List.map_append,
    Shuffle.apply_append hlength]
  simp [arrangeElement, hv]

end Annotation

structure Annotation.Arrangeable (node : Annotation) (ρ : Arrangement) : Prop where
  concerned : ρ.Concerns node
  inside : ∀ e ∈ node.elements, e.2.Distinct

/-- An element that is put behind the others leaves the arrangement one of the annotation. -/
theorem Annotation.Arrangeable.add (hnode : node.Arrangeable ρ) {name : String}
    {v : AnnotationValue} (hv : v.Distinct) : (node.add name v).Arrangeable ρ := by
  have hlength : (node.add name v).elements.length = node.elements.length + 1 := by
    unfold Annotation.add
    rw [List.length_append, List.length_singleton]
  constructor
  · constructor
    · have hown := hnode.concerned.own
      omega
    · intro i place hi
      refine hnode.concerned.beyond i place ?_
      omega
  · intro e he
    rcases List.mem_append.1 he with he | he
    · exact hnode.inside e he
    · obtain rfl := List.mem_singleton.1 he
      exact hv

namespace Hook

variable {h : Handler}

theorem fixed_handlerDesc (arguments : List String) (result : String) :
    ∀ e ∈ (handlerDesc h arguments result).elements, e.2.Fixed := by
  have harguments : AnnotationValue.Fixed
      (.array (arguments.map fun argument => .type ⟨argument⟩)) := by
    refine AnnotationValue.fixed_array fun x hx => ?_
    obtain ⟨type, -, rfl⟩ := List.mem_map.1 hx
    exact AnnotationValue.fixed_type _
  intro e he
  simp only [handlerDesc, List.mem_cons, List.not_mem_nil, or_false] at he
  rcases he with rfl | rfl | rfl
  · exact AnnotationValue.fixed_string _
  · exact harguments
  · exact AnnotationValue.fixed_type _

theorem handlerDesc_distinct (arguments : List String) (result : String) :
    (AnnotationValue.nested (handlerDesc h arguments result)).Distinct := by
  have hnames : (["value", "args", "ret"] : List String).Nodup := by decide
  refine AnnotationValue.distinct_nested.2 ⟨fun _ => hnames, ?_⟩
  simp [handlerDesc]

theorem apply_matches (hook : Hook) (hnode : node.Arrangeable ρ) :
    Matches (·.arrange ρ) (hook.apply h node) (hook.apply h (node.arrange ρ)) := by
  cases hook with
  | requireCallback => exact .check (.refl _) rfl
  | implicitTarget =>
    rw [apply, apply, Annotation.contains_arrange, Annotation.contains_arrange]
    refine .ite (fun _ => .keep rfl) fun hnamed => ?_
    obtain ⟨-, htarget⟩ := Bool.or_eq_false_iff.1 (Bool.eq_false_iff.2 hnamed)
    have htarget' : (node.arrange ρ).contains "target" = false := by
      rwa [contains_arrange]
    refine .given (.refl _) fun parts _ => .keep ?_
    dsimp only
    have hstays : (handlerDesc h parts.1 parts.2).arrange (ρ.inside node.elements.length) =
        handlerDesc h parts.1 parts.2 :=
      Annotation.arrange_of_fixed (hnode.concerned.beyond _ [] le_rfl)
        (fixed_handlerDesc parts.1 parts.2)
    rw [set_eq_add htarget, Annotation.set_eq_add htarget']
    exact Annotation.add_arrange hnode.concerned (congrArg AnnotationValue.nested hstays)

theorem apply_arrangeable (hook : Hook) (hnode : node.Arrangeable ρ) :
    (hook.apply h node).value.Arrangeable ρ := by
  cases hook with
  | requireCallback =>
    rw [apply, Edit.value_check]
    exact hnode
  | implicitTarget =>
    rw [apply]
    by_cases hnamed : (node.contains "method" || node.contains "target") = true
    · rw [if_pos hnamed]
      exact hnode
    · obtain ⟨-, htarget⟩ := Bool.or_eq_false_iff.1 (Bool.eq_false_iff.2 hnamed)
      rw [if_neg hnamed]
      refine Edit.rel_given (R := fun _ b => Annotation.Arrangeable b ρ) hnode fun parts _ => ?_
      dsimp only [Edit.keep]
      rw [set_eq_add htarget]
      exact hnode.add (handlerDesc_distinct parts.1 parts.2)

end Hook

namespace RuleSet

variable {h : Handler}

/-- The hooks run over an annotation as they run over the arranged one. -/
theorem applyHooks_matches (hooks : List Hook) (hnode : node.Arrangeable ρ) :
    Matches (·.arrange ρ) (applyHooks h hooks node) (applyHooks h hooks (node.arrange ρ)) := by
  induction hooks generalizing node with
  | nil => exact .keep rfl
  | cons hook rest ih =>
    exact (hook.apply_matches hnode).andThen fun _ => ih (hook.apply_arrangeable hnode)

theorem applyHooks_arrangeable (hooks : List Hook) (hnode : node.Arrangeable ρ) :
    (applyHooks h hooks node).value.Arrangeable ρ := by
  induction hooks generalizing node with
  | nil => exact hnode
  | cons hook rest ih =>
    have hfirst : (hook.apply h node).value.Arrangeable ρ := hook.apply_arrangeable hnode
    rcases Edit.value_andThen (hook.apply h node) (applyHooks h rest) with heq | heq
    · rwa [applyHooks, heq]
    · rw [applyHooks, heq]
      exact ih hfirst

theorem remapElement_matches (s : RuleSet) (r : Remapper) (h : Handler) (desc element : String)
    {v : AnnotationValue} (hv : v.Distinct) (ρ : Arrangement) :
    Matches (·.arrange ρ) (s.remapElement r h desc element v)
      (s.remapElement r h desc element (v.arrange ρ)) := by
  rw [remapElement, remapElement]
  cases s.rule? element with
  | none => exact .check (.refl _) rfl
  | some rule => exact rule.remap_matches r h element hv ρ

theorem remap_matches (s : RuleSet) (r : Remapper) (h : Handler) (hnode : node.Arrangeable ρ) :
    Matches (·.arrange ρ) (s.remap r h node) (s.remap r h (node.arrange ρ)) := by
  refine (applyHooks_matches s.hooks hnode).andThen fun _ => ?_
  have hhooked := applyHooks_arrangeable (h := h) s.hooks hnode
  rw [desc_arrange]
  exact .editElements _ fun i e he =>
    s.remapElement_matches r h _ e.1 (hhooked.inside e he) (ρ.inside i)

end RuleSet

end MixinNaming
