import MixinNaming.Injection.Arguments
import MixinNaming.Selector.Desc
/-! An @At names a place in a method body: a point, and for some points arguments, a fully qualified
selector or a @Desc. -/
namespace MixinNaming.Remapper

def isKnownAtElement (name : String) : Bool :=
  ["value", "args", "target", "desc", "id", "slice", "shift", "by", "ordinal", "opcode", "remap",
    "unsafe"].contains name

/-- A handler member, with its place if it stands in a list. -/
def atLocation (owner member : String) (ordinal : Option Nat) : String :=
  owner ++ "." ++ member ++
    (match ordinal with
     | some n => "[" ++ toString n ++ "]"
     | none => "")

def insideAt (part location : String) : String :=
  "An unexpected error occurred while remapping " ++ part ++ " in " ++ location ++ ": "

/-- The text that names the point. -/
def readAtValue (r : Remapper) (location : String) (node : Annotation) : Attempt String :=
  let place := insideAt "@At annotation" location
  if node.desc ≠ Vocabulary.atType then .stop (.illegal place (.notAt node.desc))
  else
    let unknown := node.names.filter fun name => !isKnownAtElement name
    (r.reportEach place (unknown.map .atElement)).bind fun _ =>
      match node.get? "value" with
      | some (.string value) => .answer value
      | some other => .stop (.illegal place (.atValueKind other.kind))
      | none => .stop (.illegal place .atWithoutValue)

def remapAtArguments (r : Remapper) (location value : String) (node : Annotation) :
    Edit Annotation :=
  let place := insideAt "@At annotation" location
  match r.policy.point? value with
  | none => .check (r.report place (.injectionPoint value)) node
  | some point =>
    (point.remapArguments r place (node.get? "args")).map fun
      | some v => node.set "args" v
      | none => node

def remapAtTarget (r : Remapper) (location : String) (node : Annotation) : Edit Annotation :=
  let place := insideAt "@At.target" location
  match node.get? "target" with
  | none => .keep node
  | some (.string text) =>
    .replace (r.resolveSelector place text none .any) node fun resolved =>
      node.set "target" (.string resolved)
  | some _ => .stop node (.illegal place .atTargetKind)

def descModeOf (point : Option InjectionPoint) : DescMode :=
  if point.any InjectionPoint.matchesFields then .field else .method

def remapAtDesc (r : Remapper) (location value : String) (targets : TargetSet)
    (node : Annotation) : Edit Annotation :=
  let place := insideAt "@At.desc" location
  match node.get? "desc" with
  | none => .keep node
  | some (.nested desc) =>
    (r.remapDesc place targets (descModeOf (r.policy.point? value)) desc).map fun edited =>
      node.set "desc" (.nested edited)
  | some _ => .stop node (.illegal place .atDescKind)

/-- An @At at a place that `location` names. -/
def remapAtIn (r : Remapper) (location : String) (targets : TargetSet) (node : Annotation) :
    Edit Annotation :=
  .given (r.readAtValue location node) node fun value =>
    ((r.remapAtArguments location value node).andThen (r.remapAtTarget location)).andThen
      (r.remapAtDesc location value targets)

/-- An @At of a handler, `ordinal` being its place in a list. -/
def remapAt (r : Remapper) (owner member : String) (ordinal : Option Nat) (targets : TargetSet)
    (node : Annotation) : Edit Annotation :=
  r.remapAtIn (atLocation owner member ordinal) targets node

end MixinNaming.Remapper
