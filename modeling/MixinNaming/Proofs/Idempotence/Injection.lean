import MixinNaming.Proofs.Frame.Injection
import MixinNaming.Proofs.Idempotence.References
import MixinNaming.Proofs.Idempotence.Spelling
import MixinNaming.Proofs.Qualified.Injection
/-! Handler annotations in a run that renames nothing. Each element is edited by itself, and the
edits of an @At read one element each, so none of them undoes what another has done. -/
namespace MixinNaming

open Edit (Idempotent Leaves given_fault_eq_none)

theorem ValueFrame.isSome_array? {v w : AnnotationValue} (h : ValueFrame v w) :
    w.array?.isSome = v.array?.isSome := by
  cases h with
  | same => rfl
  | string _ _ => rfl
  | type _ _ => rfl
  | nested _ => rfl
  | array _ => rfl

theorem AnnotationValue.withStrings_self {v : AnnotationValue} {texts : List String}
    (h : v.strings? = some texts) : v.withStrings texts = v := by
  rw [withStrings, ← strings?_eq_some.1 h, withItems_items]

namespace Annotation

theorem contains_congr {a b : Annotation} (h : b.names = a.names) (name : String) :
    b.contains name = a.contains name := by
  have hnames : ∀ c : Annotation, c.contains name = c.names.any (· == name) := fun c => by
    rw [names, List.any_map]
    rfl
  rw [hnames, hnames, h]

theorem names_editElements (f : String → AnnotationValue → Edit AnnotationValue) (a : Annotation) :
    (a.editElements f).value.names = a.names := by
  have helements : List.Forall₂ (fun e g : String × AnnotationValue => g.1 = e.1) a.elements
      (a.editElements f).value.elements := by
    refine Edit.forall₂_each ?_ ?_
    · intro e
      rfl
    · intro e _
      rfl
  rw [names, names]
  generalize (a.editElements f).value.elements = others at helements ⊢
  generalize a.elements = elements at helements ⊢
  induction helements with
  | nil => rfl
  | cons he _ ih => rw [List.map_cons, List.map_cons, he, ih]

end Annotation

open Annotation (contains_congr contains_eq_isSome get?_set_of_ne get?_set_self
  names_editElements set_eq_self_iff)

namespace InjectionPoint

/-- Arguments that are there stay there. -/
theorem remapArguments_eq_none {r : Remapper} {p : InjectionPoint} {location : String}
    {arguments : Option AnnotationValue}
    (h : (p.remapArguments r location arguments).value = none) : arguments = none := by
  cases arguments with
  | none => rfl
  | some v =>
    rw [remapArguments] at h
    split at h
    · cases h
    · cases h

theorem remapArguments_of_strings (p : InjectionPoint) (r : Remapper) (location : String)
    {v : AnnotationValue} {entries : List String} (hv : v.strings? = some entries) :
    p.remapArguments r location (some v) =
      (p.editEntries r location entries).map fun edited => some (v.withStrings edited) := by
  rw [remapArguments]
  simp only [hv]

variable {r : Remapper} (hr : r.Unmapped) (location : String)
include hr

theorem editInvokeEntry_idempotent : Idempotent (editInvokeEntry r location) := by
  intro entry h
  by_cases hpair : '=' ∈ entry.toList
  · refine Idempotent.keep.leaves_of_eq (if_pos hpair) (if_pos hpair) h
  · have hresolve : editInvokeEntry r location entry =
        .replace (r.resolveSelector location entry none .any) entry id := if_neg hpair
    rw [hresolve] at h ⊢
    obtain ⟨out, hout, -⟩ := given_fault_eq_none.1 h
    rw [Edit.replace, Edit.given_value hout]
    change (editInvokeEntry r location out).Leaves out
    rw [editInvokeEntry]
    split
    · exact .keep out
    · exact .replace (Remapper.resolveSelector_again hr hout) rfl out

omit hr in
theorem editFieldEntry_idempotent : Idempotent (editFieldEntry r location) := by
  refine .of_value fun entry _ => ?_
  rw [editFieldEntry]
  split
  · rfl
  · exact Edit.value_check _ entry

theorem editEntries_idempotent (p : InjectionPoint) : Idempotent (p.editEntries r location) := by
  have hnone : Idempotent fun entries : List String => if entries = [] then .keep entries
      else .stop entries (.illegal location (.redundantArguments p)) := by
    refine .of_value fun entries _ => ?_
    split
    · rfl
    · rfl
  cases p with
  | head => exact hnone
  | «return» => exact hnone
  | tail => exact hnone
  | invoke => exact .each (editInvokeEntry_idempotent hr location)
  | field => exact .each (editFieldEntry_idempotent location)
  | constant =>
    have hedit := ConstantArguments.editFrom_idempotent location false
    rw [← hr.naming] at hedit
    exact hedit

theorem remapArguments_idempotent (p : InjectionPoint) :
    Idempotent (p.remapArguments r location) := by
  intro arguments h
  cases arguments with
  | none =>
    rw [remapArguments] at h
    split at h
    · cases h
    · next hpoint =>
      have hkeep : p.remapArguments r location none = .keep none := if_neg hpoint
      rw [hkeep]
      change (p.remapArguments r location none).Leaves none
      rw [hkeep]
      exact .keep none
  | some v =>
    cases hv : v.strings? with
    | none =>
      rw [remapArguments] at h
      simp only [hv] at h
      cases h
    | some entries =>
      rw [remapArguments_of_strings p r location hv] at h ⊢
      have hlength : (p.editEntries r location entries).value.length = v.items.length := by
        rw [editEntries_length, AnnotationValue.strings?_eq_some.1 hv, List.length_map]
      have hedited := AnnotationValue.strings?_withStrings hlength
      have hagain := (editEntries_idempotent hr location p entries h).map fun edited =>
        some ((v.withStrings (p.editEntries r location entries).value).withStrings edited)
      rw [AnnotationValue.withStrings_self hedited] at hagain
      rwa [Edit.map, remapArguments_of_strings p r location hedited]

end InjectionPoint

namespace Remapper

section Parts

variable {r : Remapper} (hr : r.Unmapped) {location value : String} {t : TargetSet}
  {node b : Annotation}
include hr

theorem remapAtArguments_again (h : (r.remapAtArguments location value node).fault = none)
    (hb : b.get? "args" = (r.remapAtArguments location value node).value.get? "args") :
    (r.remapAtArguments location value b).Leaves b := by
  rw [remapAtArguments] at h hb ⊢
  cases hpoint : r.policy.point? value with
  | none =>
    simp only [hpoint] at h ⊢
    exact .check (Edit.check_fault_eq_none.1 h) b
  | some point =>
    simp only [hpoint] at h hb ⊢
    have hagain := InjectionPoint.remapArguments_idempotent hr _ point (node.get? "args") h
    cases hedited : (point.remapArguments r (insideAt "@At annotation" location)
        (node.get? "args")).value with
    | none =>
      have hnode := InjectionPoint.remapArguments_eq_none hedited
      simp only [Edit.map, hedited] at hb
      rw [hedited] at hagain
      rw [hb, hnode]
      exact hagain.map _
    | some w =>
      simp only [Edit.map, hedited] at hb
      rw [hedited] at hagain
      have hself := hb.trans (node.get?_set_self "args" w)
      rw [hself]
      refine ⟨hagain.fault, ?_⟩
      simp only [Edit.map, hagain.value]
      exact set_eq_self_iff.2 hself

theorem remapAtTarget_again (h : (r.remapAtTarget location node).fault = none)
    (hb : b.get? "target" = (r.remapAtTarget location node).value.get? "target") :
    (r.remapAtTarget location b).Leaves b := by
  cases htarget : node.get? "target" with
  | none =>
    have hkeep : r.remapAtTarget location node = .keep node := by rw [remapAtTarget, htarget]
    rw [hkeep] at hb
    rw [remapAtTarget, hb.trans htarget]
    exact .keep b
  | some v =>
    cases v with
    | string text =>
      have hreplace : r.remapAtTarget location node =
          .replace (r.resolveSelector (insideAt "@At.target" location) text none .any) node
            fun out => node.set "target" (.string out) := by
        rw [remapAtTarget, htarget]
      rw [hreplace] at h hb
      obtain ⟨out, hout, -⟩ := given_fault_eq_none.1 h
      rw [Edit.replace, Edit.given_value hout] at hb
      have hself := hb.trans (node.get?_set_self "target" (.string out))
      rw [remapAtTarget, hself]
      exact .replace (resolveSelector_again hr hout) (set_eq_self_iff.2 hself) b
    | _ =>
      rw [remapAtTarget, htarget] at h
      cases h

theorem remapAtDesc_again (h : (r.remapAtDesc location value t node).fault = none)
    (hb : b.get? "desc" = (r.remapAtDesc location value t node).value.get? "desc") :
    (r.remapAtDesc location value t b).Leaves b := by
  cases hdesc : node.get? "desc" with
  | none =>
    have hkeep : r.remapAtDesc location value t node = .keep node := by rw [remapAtDesc, hdesc]
    rw [hkeep] at hb
    rw [remapAtDesc, hb.trans hdesc]
    exact .keep b
  | some v =>
    cases v with
    | nested desc =>
      have hedit : r.remapAtDesc location value t node =
          (r.remapDesc (insideAt "@At.desc" location) t (descModeOf (r.policy.point? value))
            desc).map fun edited => node.set "desc" (.nested edited) := by
        rw [remapAtDesc, hdesc]
      rw [hedit] at h hb
      have hself := hb.trans (node.get?_set_self "desc" _)
      have hagain := (remapDesc_idempotent hr _ t _ desc h).map
        fun edited => b.set "desc" (.nested edited)
      rw [remapAtDesc, hself]
      rwa [set_eq_self_iff.2 hself] at hagain
    | _ =>
      rw [remapAtDesc, hdesc] at h
      cases h

variable (r location) in
omit hr in
theorem readAtValue_congr (hdesc : b.desc = node.desc) (hnames : b.names = node.names)
    (hvalue : b.get? "value" = node.get? "value") :
    r.readAtValue location b = r.readAtValue location node := by
  rw [readAtValue, readAtValue, hdesc, hnames, hvalue]

theorem remapAtIn_idempotent (location : String) (t : TargetSet) :
    Idempotent (r.remapAtIn location t) := by
  intro node h
  have hframe := r.remapAtIn_frame location t node
  rw [remapAtIn] at h
  obtain ⟨value, hread, h⟩ := given_fault_eq_none.1 h
  obtain ⟨hfront, hdesc⟩ := Edit.andThen_fault_eq_none.1 h
  obtain ⟨harguments, htarget⟩ := Edit.andThen_fault_eq_none.1 hfront
  rw [Edit.andThen_of_none harguments] at hdesc
  have hvalue : (r.remapAtIn location t node).value = (r.remapAtDesc location value t
      (r.remapAtTarget location (r.remapAtArguments location value node).value).value).value := by
    rw [remapAtIn, Edit.given_value hread, Edit.andThen_of_none hfront,
      Edit.andThen_of_none harguments]
  generalize (r.remapAtIn location t node).value = b at hframe hvalue
  have hkept : ∀ name, name ≠ "args" → name ≠ "target" → name ≠ "desc" →
      b.get? name = node.get? name := by
    intro name hargs htarget hdesc
    rw [hvalue, get?_remapAtDesc hdesc, get?_remapAtTarget htarget, get?_remapAtArguments hargs]
  have hagain := readAtValue_congr r location hframe.desc_eq hframe.names_eq
    (hkept "value" (by decide) (by decide) (by decide))
  rw [remapAtIn, hagain]
  refine .given hread (.andThen (.andThen ?_ ?_) ?_) b
  · refine remapAtArguments_again hr harguments ?_
    rw [hvalue, get?_remapAtDesc (by decide), get?_remapAtTarget (by decide)]
  · refine remapAtTarget_again hr htarget ?_
    rw [hvalue, get?_remapAtDesc (by decide)]
  · refine remapAtDesc_again hr hdesc ?_
    rw [hvalue]

theorem remapSliceElement_idempotent (location place : String) (t : TargetSet) (name : String) :
    Idempotent (r.remapSliceElement location place t name) := by
  intro v h
  unfold remapSliceElement at h ⊢
  by_cases hid : name = "id"
  · simp only [if_pos hid]
    exact .keep v
  · simp only [if_neg hid] at h ⊢
    by_cases hboundary : name = "from" ∨ name = "to"
    · simp only [if_pos hboundary] at h ⊢
      cases v with
      | nested node => exact (remapAtIn_idempotent hr _ t node h).map AnnotationValue.nested
      | _ => cases h
    · simp only [if_neg hboundary] at h ⊢
      exact Idempotent.check _ v h

theorem remapSlice_idempotent (owner member : String) (ordinal : Option Nat) (t : TargetSet) :
    Idempotent (r.remapSlice owner member ordinal t) := by
  intro node h
  by_cases hdesc : node.desc ≠ Vocabulary.sliceType
  · rw [remapSlice, if_pos hdesc] at h
    cases h
  · have helements := Idempotent.editElements (remapSliceElement_idempotent hr
      (owner ++ "." ++ member ++ " " ++ sliceTag ordinal)
      (insideAt "@Slice annotation" (owner ++ "." ++ member ++ " " ++ sliceTag ordinal)) t)
    exact helements.leaves_of_eq (if_neg hdesc) (if_neg hdesc) h

end Parts

end Remapper

namespace ElementRule

variable {r : Remapper} {h : Handler} {element : String}

theorem onNode_idempotent {f : Annotation → Edit Annotation} (hf : Idempotent f) :
    Idempotent (onNode h element f) := by
  intro v hv
  cases v with
  | nested node => exact (hf node hv).map AnnotationValue.nested
  | _ => cases hv

theorem onNodes_idempotent {f : Option Nat → Annotation → Edit Annotation}
    (hf : ∀ ordinal, Idempotent (f ordinal)) : Idempotent (onNodes h element f) := by
  refine .items (fun i => onNode_idempotent (hf (some i))) fun i v hv => ?_
  cases v with
  | nested node => rfl
  | _ => cases hv

theorem remap_idempotent (hr : r.Unmapped) (rule : ElementRule) :
    Idempotent (rule.remap r h element) := by
  have hpoint := fun location => Remapper.remapAtIn_idempotent hr location h.targets
  have hslice := fun ordinal =>
    Remapper.remapSlice_idempotent hr h.mixin h.signature ordinal h.targets
  have hlist := fun filter =>
    Remapper.remapSelectorList_idempotent hr h.location h.targets filter
  cases rule with
  | unchanged => exact .keep
  | singleTarget =>
    intro v hv
    by_cases harray : v.array?.isSome = true
    · rw [remap, if_pos harray] at hv
      cases hv
    · have hframe := r.remapSelectorList_frame h.location h.targets .methodOnly v
      have hsame : ¬(r.remapSelectorList h.location h.targets .methodOnly v).value.array?.isSome =
          true := by
        rwa [hframe.isSome_array?]
      exact (hlist .methodOnly).leaves_of_eq (if_neg harray) (if_neg hsame) hv
  | listTarget => exact hlist .methodOnly
  | injectListTarget => exact .given hlist
  | singleAt => exact onNode_idempotent (hpoint _)
  | atList => exact onNodes_idempotent fun _ => hpoint _
  | singleSlice => exact onNode_idempotent (hslice none)
  | sliceList => exact onNodes_idempotent hslice

end ElementRule

namespace RuleSet

variable {r : Remapper} {h : Handler} {node b : Annotation}

/-- A hook that has been through has nothing to add to an annotation with what it has added. -/
theorem hook_again {hook : Hook} (hnode : (hook.apply h node).fault = none)
    (hb : ∀ name, (hook.apply h node).value.contains name = true → b.contains name = true) :
    (hook.apply h b).Leaves b := by
  cases hook with
  | requireCallback => exact .check (Edit.check_fault_eq_none.1 hnode) b
  | implicitTarget =>
    have hstated : (b.contains "method" || b.contains "target") = true := by
      rw [Hook.apply] at hnode hb
      by_cases hold : (node.contains "method" || node.contains "target") = true
      · rw [if_pos hold] at hb
        rw [Bool.or_eq_true] at hold ⊢
        exact hold.imp (hb "method") (hb "target")
      · rw [if_neg hold] at hnode hb
        obtain ⟨parts, hparts, -⟩ := given_fault_eq_none.1 hnode
        rw [Edit.replace, Edit.given_value hparts] at hb
        have hset : (node.set "target" (.nested (Hook.handlerDesc h parts.1 parts.2))).contains
            "target" = true := by
          rw [contains_eq_isSome, get?_set_self]
          rfl
        rw [Bool.or_eq_true]
        exact .inr (hb "target" hset)
    rw [Hook.apply, if_pos hstated]
    exact .keep b

theorem contains_applyHooks (hooks : List Hook) (a : Annotation) {name : String}
    (ha : a.contains name = true) : (applyHooks h hooks a).value.contains name = true := by
  rcases applyHooks_value h hooks a with heq | ⟨-, -, -, d, heq⟩
  · rwa [heq]
  · rw [heq, Annotation.contains, Annotation.add, List.any_append, Bool.or_eq_true]
    exact .inl ha

theorem applyHooks_again {hooks : List Hook} (hnode : (applyHooks h hooks node).fault = none)
    (hb : ∀ name, (applyHooks h hooks node).value.contains name = true →
      b.contains name = true) : (applyHooks h hooks b).Leaves b := by
  induction hooks generalizing node with
  | nil => exact .keep b
  | cons hook rest ih =>
    rw [applyHooks] at hnode hb ⊢
    obtain ⟨hhook, hrest⟩ := Edit.andThen_fault_eq_none.1 hnode
    rw [Edit.andThen_of_none hhook] at hb
    refine .andThen (hook_again hhook fun name hname => ?_) (ih hrest hb)
    exact hb name (contains_applyHooks rest _ hname)

theorem remapElement_idempotent (hr : r.Unmapped) (s : RuleSet) (desc element : String) :
    Idempotent (s.remapElement r h desc element) := by
  intro v hv
  cases hrule : s.rule? element with
  | none =>
    have hcheck : ∀ w, s.remapElement r h desc element w =
        .check (r.report "" (.handlerElement desc element h.location)) w := by
      intro w
      rw [remapElement, hrule]
    exact (Idempotent.check _).leaves_of_eq (hcheck v) (hcheck _) hv
  | some rule =>
    have hremap : ∀ w, s.remapElement r h desc element w = rule.remap r h element w := by
      intro w
      rw [remapElement, hrule]
    exact (rule.remap_idempotent hr).leaves_of_eq (hremap v) (hremap _) hv

theorem remap_idempotent (hr : r.Unmapped) (s : RuleSet) : Idempotent (s.remap r h) := by
  intro a ha
  obtain ⟨hhooks, helements⟩ := Edit.andThen_fault_eq_none.1 ha
  have hedit := Idempotent.editElements
    (remapElement_idempotent (h := h) hr s (applyHooks h s.hooks a).value.desc) _ helements
  have hvalue : (s.remap r h a).value = ((applyHooks h s.hooks a).value.editElements
      (s.remapElement r h (applyHooks h s.hooks a).value.desc)).value := by
    rw [remap, Edit.andThen_of_none hhooks]
  rw [hvalue]
  refine .andThen (applyHooks_again hhooks fun name hname => ?_) hedit
  rwa [contains_congr (names_editElements _ _)]

end RuleSet

end MixinNaming
