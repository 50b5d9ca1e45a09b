import MixinNaming.Proofs.Frame.Injection
import MixinNaming.Proofs.Qualified.References
/-! A run that tolerates no gap settles every selector of a handler annotation: those in lists of
targets, those of injection points and those among the arguments of INVOKE points, on every path by
which the annotation leads to them. -/
namespace MixinNaming

open Edit
open Annotation (get?_set_of_ne get?_set_self)

inductive AnnotationValue.Nested (R : Annotation → Annotation → Prop) :
    AnnotationValue → AnnotationValue → Prop where
  | nested {a b : Annotation} (h : R a b) : Nested R (.nested a) (.nested b)

inductive SelectorSettled (r : Remapper) (t : TargetSet) (filter : DescriptorFilter) :
    AnnotationValue → AnnotationValue → Prop where
  | text {written renamed : String} (h : r.Settled (some t) filter written renamed) :
      SelectorSettled r t filter (.string written) (.string renamed)
  | desc (a b : Annotation) : SelectorSettled r t filter (.nested a) (.nested b)

/-- An argument of an INVOKE point before and after: a pair stays, and a selector is settled. -/
structure EntrySettled (r : Remapper) (written renamed : String) : Prop where
  pair : '=' ∈ written.toList → renamed = written
  selector : '=' ∉ written.toList → r.Settled none .any written renamed

structure AtSettled (r : Remapper) (a b : Annotation) : Prop where
  point : b.get? "value" = a.get? "value"
  target : a.names.Nodup → ∀ w, ("target", w) ∈ b.elements →
    ∃ written renamed, a.get? "target" = some (.string written) ∧ w = .string renamed ∧
      r.Settled none .any written renamed
  arguments : a.names.Nodup → ∀ value, a.get? "value" = some (.string value) →
    r.policy.point? value = some .invoke → ∀ w, ("args", w) ∈ b.elements →
      ∃ v written renamed, a.get? "args" = some v ∧ v.strings? = some written ∧
        w.strings? = some renamed ∧ List.Forall₂ (EntrySettled r) written renamed

def SliceSettled (r : Remapper) (a b : Annotation) : Prop :=
  List.Forall₂ (fun e f => f.1 = e.1 ∧
    (e.1 = "from" ∨ e.1 = "to" → AnnotationValue.Nested (AtSettled r) e.2 f.2))
    a.elements b.elements

theorem get?_of_mem {a : Annotation} (h : a.names.Nodup) {name : String} {v : AnnotationValue}
    (hv : (name, v) ∈ a.elements) : a.get? name = some v := by
  obtain ⟨desc, elements⟩ := a
  unfold Annotation.names at h
  unfold Annotation.get?
  dsimp only at h hv ⊢
  induction elements with
  | nil => cases hv
  | cons e rest ih =>
    rw [List.map_cons, List.nodup_cons] at h
    rcases List.mem_cons.1 hv with rfl | hv
    · simp
    · have hne : ¬e.1 = name := by
        rintro rfl
        exact h.1 (List.mem_map.2 ⟨_, hv, rfl⟩)
      rw [List.find?_cons_of_neg (by simpa using hne)]
      exact ih h.2 hv

/-- The elements of an annotation, edited one by one. -/
theorem elements_settled {R : String → AnnotationValue → AnnotationValue → Prop}
    {f : String → AnnotationValue → Edit AnnotationValue} {a : Annotation}
    (hf : ∀ name v, (f name v).fault = none → R name v (f name v).value)
    (h : (a.editElements f).fault = none) :
    List.Forall₂ (fun e g => g.1 = e.1 ∧ R e.1 e.2 g.2) a.elements
      (a.editElements f).value.elements :=
  forall₂_each_of_completed (fun e _ he => ⟨rfl, hf e.1 e.2 he⟩) h

/-- A list position whose items are edited one by one, as long as none becomes a list itself. -/
theorem items_settled {R : AnnotationValue → AnnotationValue → Prop}
    (hR : ∀ x y, R x y → y.array? = none)
    {f : Nat → AnnotationValue → Edit AnnotationValue}
    (hf : ∀ i x, (f i x).fault = none → R x (f i x).value) {v : AnnotationValue}
    (h : (eachIndexed f v.items).fault = none) :
    List.Forall₂ R v.items (v.withItems (eachIndexed f v.items).value).items := by
  have hitems : List.Forall₂ R v.items (eachIndexed f v.items).value :=
    forall₂_of_completed (fun i x _ => hf i x) h
  rw [AnnotationValue.items_withItems_of_forall₂ hitems hR]
  exact hitems

namespace Remapper

variable {r : Remapper} {location : String} {t : TargetSet} {filter : DescriptorFilter}

theorem remapSelectorValue_settled (hr : r.Strict) {v : AnnotationValue}
    (h : (r.remapSelectorValue location t filter v).fault = none) :
    SelectorSettled r t filter v (r.remapSelectorValue location t filter v).value := by
  cases v with
  | string text =>
    obtain ⟨renamed, hresult, -⟩ := given_fault_eq_none.1 h
    have hvalue : (r.remapSelectorValue location t filter (.string text)).value =
        .string renamed := given_value hresult _ _
    rw [hvalue]
    exact .text (resolveSelector_settled hr hresult)
  | nested node => exact .desc node _
  | _ => cases h

theorem remapSelectorList_settled (hr : r.Strict) {owner : String} {v : AnnotationValue}
    (h : (r.remapSelectorList owner t filter v).fault = none) :
    List.Forall₂ (SelectorSettled r t filter) v.items
      (r.remapSelectorList owner t filter v).value.items := by
  refine items_settled (fun x y hxy => ?_) (fun i x hx => ?_) h
  · cases hxy with
    | text _ => rfl
    | desc _ _ => rfl
  · exact remapSelectorValue_settled hr hx

theorem editInvokeEntry_settled (hr : r.Strict) {entry : String}
    (h : (InjectionPoint.editInvokeEntry r location entry).fault = none) :
    EntrySettled r entry (InjectionPoint.editInvokeEntry r location entry).value := by
  rw [InjectionPoint.editInvokeEntry] at h ⊢
  split
  next hpair => exact ⟨fun _ => rfl, fun hnone => absurd hpair hnone⟩
  next hselector =>
    rw [if_neg hselector] at h
    obtain ⟨renamed, hresult, -⟩ := given_fault_eq_none.1 h
    refine ⟨fun hpair => absurd hpair hselector, fun _ => ?_⟩
    rw [replace, given_value hresult]
    exact resolveSelector_settled hr hresult

section At

variable {node : Annotation} {value : String}

theorem value_of_readAtValue (h : (r.readAtValue location node).result = .ok value) :
    node.get? "value" = some (.string value) := by
  rw [readAtValue] at h
  dsimp only at h
  split at h
  · cases h
  · obtain ⟨-, -, h⟩ := Attempt.bind_eq_ok.1 h
    split at h
    · next written hvalue =>
      cases h
      exact hvalue
    · cases h
    · cases h

theorem get?_remapAtArguments {name : String} (hname : name ≠ "args") :
    (r.remapAtArguments location value node).value.get? name = node.get? name := by
  rw [remapAtArguments]
  split
  · rw [value_check]
  · dsimp only [Edit.map]
    split
    · exact get?_set_of_ne hname _
    · rfl

theorem get?_remapAtTarget {name : String} (hname : name ≠ "target") :
    (r.remapAtTarget location node).value.get? name = node.get? name := by
  rw [remapAtTarget]
  split
  · rfl
  · rw [replace, given]
    split
    · exact get?_set_of_ne hname _
    · rfl
  · rfl

theorem get?_remapAtDesc {name : String} (hname : name ≠ "desc") :
    (r.remapAtDesc location value t node).value.get? name = node.get? name := by
  rw [remapAtDesc]
  split
  · rfl
  · exact get?_set_of_ne hname _
  · rfl

theorem remapAtTarget_settled (hr : r.Strict)
    (h : (r.remapAtTarget location node).fault = none) {w : AnnotationValue}
    (hw : (r.remapAtTarget location node).value.get? "target" = some w) :
    ∃ written renamed, node.get? "target" = some (.string written) ∧ w = .string renamed ∧
      r.Settled none .any written renamed := by
  rw [remapAtTarget] at h hw
  split at h
  · next hnone =>
    simp only [hnone] at hw
    cases hnone.symm.trans hw
  · next text htarget =>
    simp only [htarget] at hw
    obtain ⟨renamed, hresult, -⟩ := given_fault_eq_none.1 h
    rw [replace, given_value hresult] at hw
    have hset := get?_set_self node "target" (.string renamed)
    cases hset.symm.trans hw
    exact ⟨text, renamed, htarget, rfl, resolveSelector_settled hr hresult⟩
  · cases h

theorem remapAtArguments_settled (hr : r.Strict)
    (hpoint : r.policy.point? value = some .invoke)
    (h : (r.remapAtArguments location value node).fault = none) {w : AnnotationValue}
    (hw : (r.remapAtArguments location value node).value.get? "args" = some w) :
    ∃ v written renamed, node.get? "args" = some v ∧ v.strings? = some written ∧
      w.strings? = some renamed ∧ List.Forall₂ (EntrySettled r) written renamed := by
  rw [remapAtArguments] at h hw
  simp only [hpoint] at h hw
  cases hargs : node.get? "args" with
  | none =>
    simp only [hargs] at hw
    cases hargs.symm.trans hw
  | some v =>
    simp only [hargs, InjectionPoint.remapArguments] at h hw
    cases hstrings : v.strings? with
    | none =>
      simp only [hstrings] at h
      cases h
    | some written =>
      simp only [hstrings] at h hw
      have hfault : (Edit.each (InjectionPoint.editInvokeEntry r
          (insideAt "@At annotation" location)) written).fault = none := h
      have hentries : List.Forall₂ (EntrySettled r) written _ :=
        forall₂_each_of_completed (fun _ _ => editInvokeEntry_settled hr) hfault
      have hlength : written.length = v.items.length := by
        rw [AnnotationValue.strings?_eq_some.1 hstrings, List.length_map]
      have hset := get?_set_self node "args" (v.withStrings (Edit.each
        (InjectionPoint.editInvokeEntry r (insideAt "@At annotation" location)) written).value)
      cases hset.symm.trans hw
      refine ⟨v, written, _, rfl, hstrings, ?_, hentries⟩
      exact AnnotationValue.strings?_withStrings (hentries.length_eq.symm.trans hlength)

theorem remapAtIn_settled (hr : r.Strict) (h : (r.remapAtIn location t node).fault = none) :
    AtSettled r node (r.remapAtIn location t node).value := by
  -- the edits follow one another, and each leaves the elements of the others as they are
  have hframe := r.remapAtIn_frame location t node
  rw [remapAtIn] at h hframe ⊢
  obtain ⟨value, hread, h⟩ := given_fault_eq_none.1 h
  obtain ⟨hfront, hdesc⟩ := andThen_fault_eq_none.1 h
  obtain ⟨harguments, htarget⟩ := andThen_fault_eq_none.1 hfront
  rw [given_value hread, andThen_of_none hfront, andThen_of_none harguments] at hframe ⊢
  have hvalue := value_of_readAtValue hread
  refine ⟨?_, fun hnames w hw => ?_, fun hnames value' hvalue' hpoint w hw => ?_⟩
  · rw [get?_remapAtDesc (by decide), get?_remapAtTarget (by decide),
      get?_remapAtArguments (by decide)]
  · have hget := get?_of_mem (hframe.names_eq ▸ hnames) hw
    rw [get?_remapAtDesc (by decide)] at hget
    obtain ⟨written, renamed, hwritten, hrest⟩ := remapAtTarget_settled hr htarget hget
    rw [get?_remapAtArguments (by decide)] at hwritten
    exact ⟨written, renamed, hwritten, hrest⟩
  · cases hvalue.symm.trans hvalue'
    have hget := get?_of_mem (hframe.names_eq ▸ hnames) hw
    rw [get?_remapAtDesc (by decide), get?_remapAtTarget (by decide)] at hget
    exact remapAtArguments_settled hr hpoint harguments hget

end At

theorem remapSlice_settled (hr : r.Strict) {owner member : String} {ordinal : Option Nat}
    {node : Annotation} (h : (r.remapSlice owner member ordinal t node).fault = none) :
    SliceSettled r node (r.remapSlice owner member ordinal t node).value := by
  rw [remapSlice] at h ⊢
  split
  next hdesc =>
    rw [if_pos hdesc] at h
    cases h
  next hdesc =>
    rw [if_neg hdesc] at h
    refine elements_settled (R := fun name v w => name = "from" ∨ name = "to" →
      AnnotationValue.Nested (AtSettled r) v w) (fun name v hv hname => ?_) h
    have hid : name ≠ "id" := by
      rcases hname with rfl | rfl
      · decide
      · decide
    unfold remapSliceElement at hv ⊢
    rw [if_neg hid, if_pos hname] at hv ⊢
    cases v with
    | nested boundary => exact .nested (remapAtIn_settled hr hv)
    | _ => cases hv

end Remapper

namespace ElementRule

def Settled (r : Remapper) (h : Handler) (rule : ElementRule) (v w : AnnotationValue) : Prop :=
  match rule with
  | .unchanged => w = v
  | .singleTarget | .listTarget =>
    List.Forall₂ (SelectorSettled r h.targets .methodOnly) v.items w.items
  | .injectListTarget => ∃ filter, h.callbackFilter.result = .ok filter ∧
    List.Forall₂ (SelectorSettled r h.targets filter) v.items w.items
  | .singleAt | .atList =>
    List.Forall₂ (AnnotationValue.Nested (AtSettled r)) v.items w.items
  | .singleSlice | .sliceList =>
    List.Forall₂ (AnnotationValue.Nested (SliceSettled r)) v.items w.items

variable {r : Remapper} {h : Handler} {element : String} {v : AnnotationValue}
  {R : Annotation → Annotation → Prop}

theorem onNode_settled {f : Annotation → Edit Annotation}
    (hf : ∀ node, (f node).fault = none → R node (f node).value)
    (hv : (onNode h element f v).fault = none) :
    AnnotationValue.Nested R v (onNode h element f v).value := by
  cases v with
  | nested node => exact .nested (hf node hv)
  | _ => cases hv

theorem onNode_settled_items {f : Annotation → Edit Annotation}
    (hf : ∀ node, (f node).fault = none → R node (f node).value)
    (hv : (onNode h element f v).fault = none) :
    List.Forall₂ (AnnotationValue.Nested R) v.items (onNode h element f v).value.items := by
  have hnested := onNode_settled hf hv
  generalize (onNode h element f v).value = w at hnested
  cases hnested with
  | nested hab => exact .cons (.nested hab) .nil

theorem onNodes_settled {f : Option Nat → Annotation → Edit Annotation}
    (hf : ∀ ordinal node, (f ordinal node).fault = none → R node (f ordinal node).value)
    (hv : (onNodes h element f v).fault = none) :
    List.Forall₂ (AnnotationValue.Nested R) v.items (onNodes h element f v).value.items := by
  refine items_settled (fun x y hxy => ?_) (fun i x hx => ?_) hv
  · cases hxy with
    | nested _ => rfl
  · exact onNode_settled (hf (some i)) hx

theorem remap_settled (rule : ElementRule) (hr : r.Strict)
    (hv : (rule.remap r h element v).fault = none) :
    rule.Settled r h v (rule.remap r h element v).value := by
  have hpoint : ∀ location node, (r.remapAtIn location h.targets node).fault = none →
      AtSettled r node (r.remapAtIn location h.targets node).value :=
    fun _ _ => Remapper.remapAtIn_settled hr
  have hslice : ∀ ordinal node,
      (r.remapSlice h.mixin h.signature ordinal h.targets node).fault = none →
      SliceSettled r node (r.remapSlice h.mixin h.signature ordinal h.targets node).value :=
    fun _ _ => Remapper.remapSlice_settled hr
  cases rule with
  | unchanged => rfl
  | singleTarget =>
    rw [remap] at hv ⊢
    split
    next harray =>
      rw [if_pos harray] at hv
      cases hv
    next harray =>
      rw [if_neg harray] at hv
      exact Remapper.remapSelectorList_settled hr hv
  | listTarget => exact Remapper.remapSelectorList_settled hr hv
  | injectListTarget =>
    obtain ⟨filter, hfilter, hv⟩ := given_fault_eq_none.1 hv
    refine ⟨filter, hfilter, ?_⟩
    rw [remap, given_value hfilter]
    exact Remapper.remapSelectorList_settled hr hv
  | singleAt => exact onNode_settled_items (hpoint _) hv
  | atList => exact onNodes_settled (fun _ => hpoint _) hv
  | singleSlice => exact onNode_settled_items (hslice none) hv
  | sliceList => exact onNodes_settled hslice hv

end ElementRule

end MixinNaming
