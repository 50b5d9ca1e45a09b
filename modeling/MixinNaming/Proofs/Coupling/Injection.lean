import MixinNaming.Handler.Catalogue
import MixinNaming.Proofs.Coupling.Basic
/-! Coupled walks through selectors, descriptions, injection points and the annotations of handlers.
Two remappers, each with targets of its own, walk alike once their answers to the questions below
are coupled: no other part of a walk looks at the policy, the hierarchy or the targets. -/
namespace MixinNaming

namespace Congruence

variable (C : Congruence)

theorem readLiteral (location element : String) (v : AnnotationValue) :
    C.attempts (DescReference.readLiteral location element v)
      (DescReference.readLiteral location element v) := by
  cases v with
  | type t => exact C.answer t
  | _ => exact C.refuse location _

theorem readName (location : String) (node : Annotation) :
    C.attempts (DescReference.readName location node) (DescReference.readName location node) := by
  rw [DescReference.readName]
  split
  · exact C.answer _
  · exact C.refuse location _
  · exact C.refuse location _

theorem readOwner (location : String) (node : Annotation) :
    C.attempts (DescReference.readOwner location node)
      (DescReference.readOwner location node) := by
  rw [DescReference.readOwner]
  split
  · exact C.answer none
  · refine C.bind (C.readLiteral location "owner" _) fun literal => ?_
    split
    · exact C.answer _
    · exact C.refuse location _

theorem readResult (location : String) (node : Annotation) :
    C.attempts (DescReference.readResult location node)
      (DescReference.readResult location node) := by
  rw [DescReference.readResult]
  split
  · exact C.answer none
  · exact C.bind (C.readLiteral location "ret" _) fun literal => C.answer (some literal.descriptor)

theorem readArguments (location : String) (items : List AnnotationValue) :
    C.attempts (DescReference.readArguments location items)
      (DescReference.readArguments location items) := by
  induction items with
  | nil => exact C.answer []
  | cons v rest ih =>
    exact C.bind (C.readLiteral location "args" v) fun literal =>
      C.bind ih fun more => C.answer (literal.descriptor :: more)

theorem fromDesc {α : Type} (handler : Handler) (read : String → Except DescriptorError α) :
    C.attempts (handler.fromDesc read) (handler.fromDesc read) :=
  C.ofExcept _ (read handler.desc)

theorem callbackFilter (handler : Handler) :
    C.attempts handler.callbackFilter handler.callbackFilter := by
  refine C.bind (C.fromDesc handler _) fun found => ?_
  cases found with
  | none => exact C.refuse "" _
  | some callback => exact C.fromDesc handler _

theorem constantEntries (n : Naming) (location : String) (found : Bool) (entries : List String) :
    C.edits (ConstantArguments.editFrom n location found entries)
      (ConstantArguments.editFrom n location found entries) := by
  induction entries generalizing found with
  | nil =>
    cases found with
    | true => exact C.keep []
    | false => exact C.stop [] location .constantMissing
  | cons entry rest ih =>
    rw [ConstantArguments.editFrom]
    split
    · exact C.map _ (ih found)
    · split
      · exact C.stop _ location .constantRepeated
      · split
        · exact C.stop _ location _
        · exact C.map _ (ih true)

theorem onNode (handler : Handler) (element : String) {f g : Annotation → Edit Annotation}
    (h : ∀ node, C.edits (f node) (g node)) (v : AnnotationValue) :
    C.edits (ElementRule.onNode handler element f v) (ElementRule.onNode handler element g v) := by
  cases v with
  | nested node => exact C.map _ (h node)
  | _ => exact C.stop _ _ _

theorem onNodes (handler : Handler) (element : String)
    {f g : Option Nat → Annotation → Edit Annotation}
    (h : ∀ ordinal node, C.edits (f ordinal node) (g ordinal node)) (v : AnnotationValue) :
    C.edits (ElementRule.onNodes handler element f v)
      (ElementRule.onNodes handler element g v) :=
  C.map _ (C.eachIndexed (fun ordinal => C.onNode handler element (h (some ordinal))) v.items)

/-- Hooks look at the name and the descriptor of a handler, never at its targets. -/
theorem applyHooks (mixin name desc : String) (t u : TargetSet) (hooks : List Hook)
    (node : Annotation) :
    C.edits (RuleSet.applyHooks ⟨mixin, name, desc, t⟩ hooks node)
      (RuleSet.applyHooks ⟨mixin, name, desc, u⟩ hooks node) := by
  induction hooks generalizing node with
  | nil => exact C.keep node
  | cons hook rest ih =>
    refine C.andThen ?_ ih
    cases hook with
    | implicitTarget =>
      rw [Hook.apply, Hook.apply]
      split
      · exact C.keep node
      · exact C.replace node _ (C.fromDesc ⟨mixin, name, desc, t⟩ _)
    | requireCallback =>
      exact C.check node (C.bind (C.callbackFilter ⟨mixin, name, desc, t⟩) fun _ => C.answer ())

end Congruence

/-- Every answer is coupled that a walk takes from the naming or the policy, or looks up for the
targets themselves. -/
structure Attuned (C : Congruence) (r s : Remapper) (t u : TargetSet) : Prop where
  naming : s.naming = r.naming
  points : s.policy.point? = r.policy.point?
  report : ∀ location feature,
    C.attempts (r.report location feature) (s.report location feature)
  descName : ∀ (d : DescReference) location mode,
    C.attempts (d.newName r location mode t) (d.newName s location mode u)
  memberName : ∀ site label name electorate,
    C.attempts (r.nameAcross site label name t electorate)
      (s.nameAcross site label name u electorate)

/-- Every answer is coupled, unless a walk asks whether an interface forbids a rename. -/
structure Paired (C : Congruence) (r s : Remapper) (t u : TargetSet) : Prop
    extends Attuned C r s t u where
  selector : ∀ location text parts filter,
    C.attempts (r.inferSelector location text parts t filter)
      (s.inferSelector location text parts u filter)

structure Coupled (C : Congruence) (r s : Remapper) (t u : TargetSet) : Prop
    extends Paired C r s t u where
  guard : ∀ site label interfaces,
    C.attempts (r.guardInterfaces site label t interfaces)
      (s.guardInterfaces site label u interfaces)

def ElementRule.readsSelectors : ElementRule → Bool
  | .singleTarget | .listTarget | .injectListTarget => true
  | _ => false

namespace Attuned

variable {C : Congruence} {r s : Remapper} {t u : TargetSet} (h : Attuned C r s t u)
include h

theorem reportEach (location : String) (features : List Feature) :
    C.attempts (r.reportEach location features) (s.reportEach location features) := by
  induction features with
  | nil => exact C.answer ()
  | cons feature rest ih => exact C.bind (h.report location feature) fun _ => ih

theorem canonical (location : String) (m : MemberRef) :
    C.attempts (r.canonical location m) (s.canonical location m) := by
  rw [Remapper.canonical, Remapper.canonical]
  rw [h.naming]
  exact C.ofExcept location (r.naming.canonical m)

theorem freeSelector (location text : String) (filter : DescriptorFilter) :
    C.attempts (r.resolveSelector location text none filter)
      (s.resolveSelector location text none filter) := by
  rw [Remapper.resolveSelector, Remapper.resolveSelector]
  cases Selector.parse text with
  | error v => exact C.refuse location v
  | ok parts =>
    cases hq : parts.qualified? with
    | some m =>
      simp only [hq]
      exact C.bind (h.canonical location m) fun resolved => C.answer resolved.render
    | none =>
      simp only [hq]
      -- without a scope no member is listed, so both runs report the same gap
      exact C.bind (h.report location _) fun _ => C.answer text

theorem readDesc (location : String) (mode : DescMode) (node : Annotation)
    (result : Option String) :
    C.attempts (DescReference.readDesc r location mode node result)
      (DescReference.readDesc s location mode node result) := by
  unfold DescReference.readDesc
  split
  · exact C.answer _
  · exact C.bind (h.report location .descFieldType) fun _ => C.answer "V"
  · exact C.bind (C.readArguments location _) fun _ => C.answer _

theorem readReference (location : String) (mode : DescMode) (node : Annotation) :
    C.attempts (DescReference.read r location mode node)
      (DescReference.read s location mode node) := by
  rw [DescReference.read, DescReference.read]
  split
  · exact C.refuse location _
  · exact C.bind (h.reportEach location _) fun _ => C.bind (C.readName location node) fun name =>
      C.bind (C.readOwner location node) fun owner => C.bind (C.readResult location node)
        fun result => C.bind (h.readDesc location mode node result) fun desc =>
          C.answer (DescReference.mk name owner result desc)

theorem remapDesc (location : String) (mode : DescMode) (node : Annotation) :
    C.edits (r.remapDesc location t mode node) (s.remapDesc location u mode node) := by
  refine C.given node (h.readReference location mode node) fun d => ?_
  refine C.given node (h.descName d location mode) fun name => ?_
  rw [h.naming]
  cases hd : d.renameTypes r.naming mode (node.set "value" (.string name)) with
  | error e =>
    simp only [hd]
    exact C.stop _ location (.descriptor e)
  | ok typed =>
    simp only [hd]
    exact C.keep _

theorem editInvokeEntry (location entry : String) :
    C.edits (InjectionPoint.editInvokeEntry r location entry)
      (InjectionPoint.editInvokeEntry s location entry) := by
  rw [InjectionPoint.editInvokeEntry, InjectionPoint.editInvokeEntry]
  split
  · exact C.keep entry
  · exact C.replace entry id (h.freeSelector location entry .any)

theorem editFieldEntry (location entry : String) :
    C.edits (InjectionPoint.editFieldEntry r location entry)
      (InjectionPoint.editFieldEntry s location entry) := by
  rw [InjectionPoint.editFieldEntry, InjectionPoint.editFieldEntry]
  split
  · exact C.keep entry
  · exact C.check entry (h.report location _)

theorem editEntries (p : InjectionPoint) (location : String) (entries : List String) :
    C.edits (p.editEntries r location entries) (p.editEntries s location entries) := by
  unfold InjectionPoint.editEntries
  cases p with
  | invoke => exact C.each (h.editInvokeEntry location) entries
  | field => exact C.each (h.editFieldEntry location) entries
  | constant =>
    rw [h.naming]
    exact C.constantEntries r.naming location false entries
  | head | «return» | tail =>
    dsimp only
    split
    · exact C.keep entries
    · exact C.stop entries location _

theorem remapArguments (p : InjectionPoint) (location : String)
    (arguments : Option AnnotationValue) :
    C.edits (p.remapArguments r location arguments) (p.remapArguments s location arguments) := by
  unfold InjectionPoint.remapArguments
  split
  · split
    · exact C.stop none location _
    · exact C.keep none
  · split
    · exact C.stop _ location _
    · exact C.map _ (h.editEntries p location _)

theorem readAtValue (location : String) (node : Annotation) :
    C.attempts (r.readAtValue location node) (s.readAtValue location node) := by
  rw [Remapper.readAtValue, Remapper.readAtValue]
  dsimp only
  split
  · exact C.refuse _ _
  · refine C.bind (h.reportEach _ _) fun _ => ?_
    split
    · exact C.answer _
    · exact C.refuse _ _
    · exact C.refuse _ _

theorem remapAtArguments (location value : String) (node : Annotation) :
    C.edits (r.remapAtArguments location value node) (s.remapAtArguments location value node) := by
  unfold Remapper.remapAtArguments
  rw [h.points]
  dsimp only
  split
  · exact C.check node (h.report _ _)
  · exact C.map _ (h.remapArguments _ _ _)

theorem remapAtTarget (location : String) (node : Annotation) :
    C.edits (r.remapAtTarget location node) (s.remapAtTarget location node) := by
  rw [Remapper.remapAtTarget, Remapper.remapAtTarget]
  split
  · exact C.keep node
  · exact C.replace node _ (h.freeSelector _ _ .any)
  · exact C.stop node _ _

theorem remapAtDesc (location value : String) (node : Annotation) :
    C.edits (r.remapAtDesc location value t node) (s.remapAtDesc location value u node) := by
  unfold Remapper.remapAtDesc
  rw [h.points]
  dsimp only
  split
  · exact C.keep node
  · exact C.map _ (h.remapDesc _ _ _)
  · exact C.stop node _ _

theorem remapAtIn (location : String) (node : Annotation) :
    C.edits (r.remapAtIn location t node) (s.remapAtIn location u node) := by
  refine C.given node (h.readAtValue location node) fun value => ?_
  refine C.andThen (C.andThen ?_ (h.remapAtTarget location)) (h.remapAtDesc location value)
  exact h.remapAtArguments location value node

theorem remapSlice (owner member : String) (ordinal : Option Nat) (node : Annotation) :
    C.edits (r.remapSlice owner member ordinal t node)
      (s.remapSlice owner member ordinal u node) := by
  rw [Remapper.remapSlice, Remapper.remapSlice]
  split
  · exact C.stop node _ _
  · refine C.editElements (fun name v => ?_) node
    unfold Remapper.remapSliceElement
    split
    · exact C.keep v
    · split
      · split
        · exact C.map _ (h.remapAtIn _ _)
        · exact C.stop _ _ _
      · exact C.check v (h.report _ _)

/-- An element is edited alike if, under a rule that reads selectors, its selectors are. -/
theorem elementRule (rule : ElementRule) (mixin name desc element : String)
    (v : AnnotationValue) (hlist : rule.readsSelectors = true → ∀ owner filter,
      C.edits (r.remapSelectorList owner t filter v) (s.remapSelectorList owner u filter v)) :
    C.edits (rule.remap r ⟨mixin, name, desc, t⟩ element v)
      (rule.remap s ⟨mixin, name, desc, u⟩ element v) := by
  cases rule with
  | unchanged => exact C.keep v
  | singleTarget =>
    rw [ElementRule.remap, ElementRule.remap]
    dsimp only
    split
    · exact C.stop v "" _
    · exact hlist rfl _ .methodOnly
  | listTarget => exact hlist rfl _ .methodOnly
  | injectListTarget =>
    -- the targets of a handler play no part in reading its descriptor
    exact C.given v (C.callbackFilter ⟨mixin, name, desc, t⟩) (hlist rfl _)
  | singleAt => exact C.onNode ⟨mixin, name, desc, t⟩ element (h.remapAtIn _) v
  | atList => exact C.onNodes ⟨mixin, name, desc, t⟩ element (fun _ => h.remapAtIn _) v
  | singleSlice =>
    exact C.onNode ⟨mixin, name, desc, t⟩ element (h.remapSlice mixin _ none) v
  | sliceList => exact C.onNodes ⟨mixin, name, desc, t⟩ element (h.remapSlice mixin _) v

end Attuned

namespace Paired

variable {C : Congruence} {r s : Remapper} {t u : TargetSet} (h : Paired C r s t u)
include h

theorem scopedSelector (location text : String) (filter : DescriptorFilter) :
    C.attempts (r.resolveSelector location text (some t) filter)
      (s.resolveSelector location text (some u) filter) := by
  rw [Remapper.resolveSelector, Remapper.resolveSelector]
  cases Selector.parse text with
  | error v => exact C.refuse location v
  | ok parts =>
    cases hq : parts.qualified? with
    | some m =>
      simp only [hq]
      exact C.bind (h.canonical location m) fun resolved => C.answer resolved.render
    | none =>
      simp only [hq]
      exact h.selector location text parts filter

theorem remapSelectorValue (location : String) (filter : DescriptorFilter)
    (v : AnnotationValue) :
    C.edits (r.remapSelectorValue location t filter v)
      (s.remapSelectorValue location u filter v) := by
  cases v with
  | string text => exact C.replace _ _ (h.scopedSelector location text filter)
  | nested node => exact C.map _ (h.remapDesc location .method node)
  | _ => exact C.stop _ location _

theorem remapSelectorList (owner : String) (filter : DescriptorFilter) (v : AnnotationValue) :
    C.edits (r.remapSelectorList owner t filter v) (s.remapSelectorList owner u filter v) :=
  C.map _ (C.eachIndexed (fun _ _ => h.remapSelectorValue _ filter _) v.items)

theorem ruleSet (rules : RuleSet) (mixin name desc : String) (node : Annotation) :
    C.edits (rules.remap r ⟨mixin, name, desc, t⟩ node)
      (rules.remap s ⟨mixin, name, desc, u⟩ node) := by
  refine C.andThen (C.applyHooks mixin name desc t u rules.hooks node) fun node => ?_
  refine C.editElements (fun element v => ?_) node
  rw [RuleSet.remapElement, RuleSet.remapElement]
  split
  · exact h.elementRule _ mixin name desc element v fun _ owner filter =>
      h.remapSelectorList owner filter v
  · exact C.check v (h.report "" _)

end Paired

end MixinNaming
