import MixinNaming.Handler.Basic
import MixinNaming.Injection.Slice
import MixinNaming.Selector.Value
/-! How the elements of an injector annotation are renamed: a rule for each element name, and hooks
that run before any element is touched. An element without a rule is a gap. -/
namespace MixinNaming

inductive ElementRule where
  | unchanged
  | singleTarget
  | listTarget
  | injectListTarget
  | singleAt
  | atList
  | singleSlice
  | sliceList
  deriving DecidableEq, Repr

inductive Hook where
  | implicitTarget
  | requireCallback
  deriving DecidableEq, Repr

namespace ElementRule

/-- Edits an element value that has to be an annotation. -/
def onNode (h : Handler) (element : String) (f : Annotation → Edit Annotation)
    (v : AnnotationValue) : Edit AnnotationValue :=
  match v with
  | .nested node => (f node).map .nested
  | other => .stop other (.illegal "" (.handlerElementKind element h.location other.kind))

/-- Edits a list of annotations, each with its place. -/
def onNodes (h : Handler) (element : String)
    (f : Option Nat → Annotation → Edit Annotation) (v : AnnotationValue) : Edit AnnotationValue :=
  (Edit.eachIndexed (fun ordinal => onNode h element (f (some ordinal))) v.items).map
    v.withItems

def remap (rule : ElementRule) (r : Remapper) (h : Handler) (element : String)
    (v : AnnotationValue) : Edit AnnotationValue :=
  match rule with
  | .unchanged => .keep v
  | .singleTarget =>
    if v.array?.isSome then .stop v (.illegal "" (.handlerArray element h.location))
    else r.remapSelectorList h.location h.targets .methodOnly v
  | .listTarget => r.remapSelectorList h.location h.targets .methodOnly v
  | .injectListTarget =>
    .given h.callbackFilter v fun filter => r.remapSelectorList h.location h.targets filter v
  | .singleAt => onNode h element (r.remapAt h.mixin h.signature none h.targets) v
  | .atList =>
    onNodes h element (fun ordinal => r.remapAt h.mixin h.signature ordinal h.targets) v
  | .singleSlice => onNode h element (r.remapSlice h.mixin h.signature none h.targets) v
  | .sliceList =>
    onNodes h element (fun ordinal => r.remapSlice h.mixin h.signature ordinal h.targets) v

end ElementRule

namespace Hook

/-- The @Desc that names the handler itself. -/
def handlerDesc (h : Handler) (arguments : List String) (result : String) : Annotation :=
  ⟨Vocabulary.descType,
    [("value", .string h.name),
      ("args", .array (arguments.map fun argument => .type ⟨argument⟩)),
      ("ret", .type ⟨result⟩)]⟩

def apply (hook : Hook) (h : Handler) (node : Annotation) : Edit Annotation :=
  match hook with
  | .implicitTarget =>
    if node.contains "method" || node.contains "target" then .keep node
    else
      .replace (h.fromDesc Descriptor.split) node fun parts =>
        node.set "target" (.nested (handlerDesc h parts.1 parts.2))
  | .requireCallback => .check (h.callbackFilter.bind fun _ => .answer ()) node

end Hook

/-- The rules of one kind of annotation. -/
structure RuleSet where
  rules : List (String × ElementRule)
  hooks : List Hook
  deriving Repr

namespace RuleSet

def empty : RuleSet := ⟨[], []⟩

def withHook (s : RuleSet) (hook : Hook) : RuleSet := { s with hooks := s.hooks ++ [hook] }

/-- A later rule for the same element wins. -/
def withRule (s : RuleSet) (element : String) (rule : ElementRule) : RuleSet :=
  { s with rules := (element, rule) :: s.rules }

def withUnchanged (s : RuleSet) (elements : List String) : RuleSet :=
  elements.foldl (fun s element => s.withRule element .unchanged) s

def withFrequencyBounds (s : RuleSet) : RuleSet := s.withUnchanged ["expect", "allow", "require"]

def withInjectorMetadata (s : RuleSet) : RuleSet :=
  s.withUnchanged ["id", "remap", "constraints", "order"]

def withIndex (s : RuleSet) : RuleSet := s.withUnchanged ["index"]

def withMethodTargets (s : RuleSet) (rule : ElementRule) : RuleSet :=
  (s.withRule "method" rule).withRule "target" rule

def rule? (s : RuleSet) (element : String) : Option ElementRule := s.rules.lookup element

def applyHooks (h : Handler) : List Hook → Annotation → Edit Annotation
  | [], node => .keep node
  | hook :: rest, node => (hook.apply h node).andThen (applyHooks h rest)

def remapElement (s : RuleSet) (r : Remapper) (h : Handler) (desc element : String)
    (v : AnnotationValue) : Edit AnnotationValue :=
  match s.rule? element with
  | some rule => rule.remap r h element v
  | none => .check (r.report "" (.handlerElement desc element h.location)) v

def remap (s : RuleSet) (r : Remapper) (h : Handler) (node : Annotation) : Edit Annotation :=
  (applyHooks h s.hooks node).andThen fun node =>
    node.editElements (s.remapElement r h node.desc)

end RuleSet

end MixinNaming
