import MixinNaming.Fault
import MixinNaming.Text.Span
import MixinNaming.Text.WhiteSpace
/-! Textual selectors of members. Without its white space a selector reads
`[ L owner ; ] [ name ] [ : field descriptor | method descriptor ]`; a method descriptor opens with
its own parenthesis. Each part may be left out. -/
namespace MixinNaming

structure Selector where
  owner : Option String
  name : Option String
  desc : Option String
  deriving DecidableEq, Repr, Inhabited

namespace Selector

def ofMember (m : MemberRef) : Selector := ⟨some m.owner, some m.name, some m.desc⟩

/-- The member that a selector with all three parts names. -/
def qualified? : Selector → Option MemberRef
  | ⟨some owner, some name, some desc⟩ => some ⟨owner, name, desc⟩
  | _ => none

def isFullyQualified (s : Selector) : Bool := s.qualified?.isSome

def ownerChars : Option String → List Char
  | none => []
  | some owner => 'L' :: (owner.toList ++ [';'])

def nameChars : Option String → List Char
  | none => []
  | some name => name.toList

def descChars : Option String → List Char
  | none => []
  | some desc => if Descriptor.isMethod desc then desc.toList else ':' :: desc.toList

def chars (s : Selector) : List Char := ownerChars s.owner ++ nameChars s.name ++ descChars s.desc

def render (s : Selector) : String := .ofList s.chars

/-- A text before its descriptor, and the descriptor if a colon or a parenthesis opens one. -/
structure Halves where
  head : List Char
  desc : Option (List Char)

def halves (cs : List Char) : Except Violation Halves :=
  match Text.splitOnce ':' cs, Text.splitOnce '(' cs with
  | some _, some _ => .error .mixedSelector
  | some (head, desc), none => .ok ⟨head, some desc⟩
  | none, some (head, rest) => .ok ⟨head, some ('(' :: rest)⟩
  | none, none => .ok ⟨cs, none⟩

def isOwnerChar (c : Char) : Bool := c ≠ '.' && c ≠ '[' && c ≠ '(' && c ≠ ')'

/-- The owner that is written before the first semicolon. -/
def readOwner (purged : List Char) (written : List Char) : Except Violation String :=
  match written with
  | 'L' :: c :: rest =>
    if (c :: rest).all isOwnerChar then .ok (.ofList (c :: rest))
    else .error (.selectorOwner (.ofList written) (.ofList purged))
  | _ => .error (.selectorOwner (.ofList written) (.ofList purged))

def isMemberNameChar (c : Char) : Bool :=
  c ≠ ';' && c ≠ '(' && c ≠ ')' && c ≠ '[' && c ≠ '/'

def readName (purged : List Char) (written : List Char) : Except Violation (Option String) :=
  if written.all isMemberNameChar then
    .ok (if written = [] then none else some (.ofList written))
  else .error (.selectorName (.ofList written) (.ofList purged))

def readDesc (purged : List Char) : Option (List Char) → Except Violation (Option String)
  | none => .ok none
  | some [] => .error (.selectorFieldType (.ofList purged))
  | some desc =>
    match Descriptor.validate (.ofList desc) with
    | .ok () => .ok (some (.ofList desc))
    | .error e => .error (.descriptor e)

/-- Reads a selector that holds no white space. -/
def parseChars (purged : List Char) : Except Violation Selector := do
  let parts ← halves purged
  let (owner, name) ←
    match Text.splitOnce ';' parts.head with
    | some (owner, name) => (readOwner purged owner).map fun o => (some o, name)
    | none => .ok (none, parts.head)
  let name ← readName purged name
  let desc ← readDesc purged parts.desc
  return ⟨owner, name, desc⟩

def parse (text : String) : Except Violation Selector :=
  parseChars (Text.withoutWhiteSpace text.toList)

end Selector

end MixinNaming
