import MixinNaming.Agreement
import MixinNaming.Remapper
import MixinNaming.Vocabulary
/-! Resolving a structured @Desc reference in place. It names a method by its argument and result
types, or a field by its type; the missing result of a method is void. Without an owner of its own
all targets have to agree on the new name. -/
namespace MixinNaming

/-- Which kind of member a @Desc names. -/
inductive DescMode where
  | method
  | field
  deriving DecidableEq, Repr

/-- What a @Desc says, before anything is renamed. -/
structure DescReference where
  name : String
  owner : Option String
  result : Option String
  desc : String
  deriving DecidableEq, Repr

namespace DescReference

def isKnownElement (name : String) : Bool :=
  name == "value" || name == "owner" || name == "args" || name == "ret"

def illegal {α : Type} (location : String) (v : Violation) : Attempt α :=
  .stop (.illegal location v)

def readLiteral (location element : String) (v : AnnotationValue) : Attempt ClassLiteral :=
  match v with
  | .type t => .answer t
  | other => illegal location (.descLiteral element other.kind)

def readName (location : String) (node : Annotation) : Attempt String :=
  match node.get? "value" with
  | some (.string name) => .answer name
  | some other => illegal location (.descValueKind other.kind)
  | none => illegal location .descWithoutValue

def readOwner (location : String) (node : Annotation) : Attempt (Option String) :=
  match node.get? "owner" with
  | none => .answer none
  | some v =>
    (readLiteral location "owner" v).bind fun t =>
      match t.reference? with
      | some name => .answer (some name)
      | none => illegal location (.descOwner t.descriptor)

def readResult (location : String) (node : Annotation) : Attempt (Option String) :=
  match node.get? "ret" with
  | none => .answer none
  | some v => (readLiteral location "ret" v).bind fun t => .answer (some t.descriptor)

def readArguments (location : String) : List AnnotationValue → Attempt (List String)
  | [] => .answer []
  | v :: rest =>
    (readLiteral location "args" v).bind fun t =>
      (readArguments location rest).bind fun more => .answer (t.descriptor :: more)

/-- The descriptor of the member. The type of a field cannot be left out; when the policy lets the
gap pass, void stands for it. -/
def readDesc (r : Remapper) (location : String) (mode : DescMode) (node : Annotation)
    (result : Option String) : Attempt String :=
  match mode, result with
  | .field, some type => .answer type
  | .field, none => (r.report location .descFieldType).bind fun _ => .answer "V"
  | .method, result =>
    let arguments := match node.get? "args" with
      | some v => v.items
      | none => []
    (readArguments location arguments).bind fun arguments =>
      .answer (Descriptor.build arguments (result.getD "V"))

def read (r : Remapper) (location : String) (mode : DescMode) (node : Annotation) :
    Attempt DescReference :=
  if node.desc ≠ Vocabulary.descType then illegal location (.notDesc node.desc)
  else
    let unknown := node.names.filter fun name => !isKnownElement name
    (r.reportEach location (unknown.map .descElement)).bind fun _ =>
      (readName location node).bind fun name =>
        (readOwner location node).bind fun owner =>
          (readResult location node).bind fun result =>
            (readDesc r location mode node result).bind fun desc =>
              .answer ⟨name, owner, result, desc⟩

def owners (d : DescReference) (targets : TargetSet) : List String :=
  match d.owner with
  | some owner => [owner]
  | none => targets.classes

def rename (n : Naming) (mode : DescMode) (m : MemberRef) : String :=
  match mode with
  | .method => n.method m
  | .field => n.field m

/-- The name on which all owners agree. -/
def newName (r : Remapper) (location : String) (mode : DescMode) (d : DescReference)
    (targets : TargetSet) : Attempt String :=
  (agree (fun owner => .answer (some (rename r.naming mode ⟨owner, d.name, d.desc⟩)))
    (fun first second => .illegal location (.tornDesc first second d.name d.desc))
    (d.owners targets)).bind fun
      | some name => .answer name
      | none => illegal location .descWithoutOwner

/-- The node with its types renamed. A field reference without a type has none to rename. -/
def renameTypes (n : Naming) (mode : DescMode) (d : DescReference) (node : Annotation) :
    Except DescriptorError Annotation :=
  match mode with
  | .field =>
    if d.result.isSome then do
      return node.set "ret" (.type ⟨← n.fieldSignature d.desc⟩)
    else .ok node
  | .method => do
    let (arguments, result) ← Descriptor.split (← n.methodSignature d.desc)
    let node := if d.result.isSome then node.set "ret" (.type ⟨result⟩) else node
    return if node.contains "args" then
      node.set "args" (.array (arguments.map fun argument => .type ⟨argument⟩))
    else node

def renameOwner (n : Naming) (d : DescReference) (node : Annotation) : Annotation :=
  match d.owner with
  | some owner => node.set "owner" (.type (.object (n.className owner)))
  | none => node

end DescReference

/-- The new name is written before the types are renamed, so it stays when a type is malformed. -/
def Remapper.remapDesc (r : Remapper) (location : String) (targets : TargetSet) (mode : DescMode)
    (node : Annotation) : Edit Annotation :=
  .given (DescReference.read r location mode node) node fun d =>
    .given (d.newName r location mode targets) node fun name =>
      let named := node.set "value" (.string name)
      match d.renameTypes r.naming mode named with
      | .error e => .stop named (.illegal location (.descriptor e))
      | .ok typed => .keep (d.renameOwner r.naming typed)

end MixinNaming
