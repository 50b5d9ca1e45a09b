import MixinNaming.Agreement
import MixinNaming.Remapper
import MixinNaming.Selector.Basic
import MixinNaming.Selector.Filter
/-! Resolving a selector into the target namespace. A fully qualified selector is renamed as it
stands. Any other stands for the members that agree with it in its own owner or, without one, in the
targets; they have to become one member. A selector that stands for no member is a gap and keeps its
text. -/
namespace MixinNaming

/-- The target-namespace selector of a source-namespace member. -/
def Naming.canonical (n : Naming) (m : MemberRef) : Except DescriptorError Selector :=
  (n.signature m.desc).map fun desc => .ofMember ⟨n.className m.owner, n.member m, desc⟩

namespace Remapper

def canonical (r : Remapper) (location : String) (m : MemberRef) : Attempt Selector :=
  .ofExcept ((r.naming.canonical m).mapError fun e => .illegal location (.descriptor e))

/-- The members in a list of classes that a selector may stand for. -/
def inferCandidates (r : Remapper) (s : Selector) (filter : DescriptorFilter) :
    List String → Attempt (List MemberRef)
  | [] => .answer []
  | c :: rest =>
    (r.infer c s.name s.desc).bind fun found =>
      (r.inferCandidates s filter rest).bind fun more =>
        .answer (found.filter (fun m => filter.accepts m.desc) ++ more)

/-- The one selector that all candidates become, if there are candidates. -/
def agreeOnCandidates (r : Remapper) (location text : String) (candidates : List MemberRef) :
    Attempt (Option Selector) :=
  agree (fun m => (r.canonical location m).bind fun s => .answer (some s))
    (fun first second =>
      .illegal location (.tornSelector text first.render second.render candidates))
    candidates

/-- The classes where a partial selector is looked for. -/
def scopeOf (s : Selector) (targets : TargetSet) : List String :=
  match s.owner with
  | some owner => [owner]
  | none => targets.classes

def knownMembers (r : Remapper) (scope : List String) : List (String × List MemberRef) :=
  scope.filterMap fun c => (r.hierarchy.listMembers c).map fun members => (c, members)

/-- A selector that stands for no single member: a gap, after which it keeps its text. -/
def leaveUnresolved (r : Remapper) (location text : String) (scope : List String) :
    Attempt String :=
  (r.report location (.unresolvedSelector text (r.knownMembers scope))).bind fun _ => .answer text

def inferSelector (r : Remapper) (location text : String) (s : Selector) (targets : TargetSet)
    (filter : DescriptorFilter) : Attempt String :=
  let scope := scopeOf s targets
  (r.inferCandidates s filter scope).bind fun candidates =>
    (r.agreeOnCandidates location text candidates).bind fun
      | some resolved => .answer resolved.render
      | none => r.leaveUnresolved location text scope

/-- Without targets only a fully qualified selector is resolved. -/
def resolveSelector (r : Remapper) (location text : String) (targets : Option TargetSet)
    (filter : DescriptorFilter) : Attempt String :=
  match Selector.parse text with
  | .error v => .stop (.illegal location v)
  | .ok s =>
    match s.qualified?, targets with
    | some m, _ => (r.canonical location m).bind fun resolved => .answer resolved.render
    | none, some targets => r.inferSelector location text s targets filter
    | none, none => r.leaveUnresolved location text []

end Remapper

end MixinNaming
