import MixinNaming.Naming
import MixinNaming.Table
/-! The naming that a mapping file states. Methods and fields share one table keyed by owner, name
and descriptor; an inherited member needs an entry for every owner it is looked up through. -/
namespace MixinNaming

structure MappingTable where
  classes : Table String String
  members : Table MemberRef String

/-- The contents of a mapping file, entries in the order of the file. -/
structure MappingFile where
  classes : Table String String
  methods : List Rename
  fields : List Rename

namespace MappingTable

def empty : MappingTable := ⟨.empty, .empty⟩

instance : Inhabited MappingTable := ⟨empty⟩

def withClass (t : MappingTable) (source renamed : String) : MappingTable :=
  { t with classes := t.classes.insert source renamed }

def withMember (t : MappingTable) (r : Rename) : MappingTable :=
  { t with members := t.members.insert r.member r.newName }

def className? (t : MappingTable) (c : String) : Option String := t.classes.get? c

def memberName (t : MappingTable) (m : MemberRef) : String := (t.members.get? m).getD m.name

def naming (t : MappingTable) : Naming := ⟨t.className?, t.memberName, t.memberName⟩

/-- Methods are entered before fields and a later entry of one key wins. -/
def ofFile (f : MappingFile) : MappingTable :=
  (f.methods ++ f.fields).foldl withMember ⟨f.classes, .empty⟩

def renames (t : MappingTable) : List Rename := t.members.entries.map fun e => ⟨e.1, e.2⟩

/-- Entries in key order, told apart by their descriptors. -/
def toFile (t : MappingTable) : MappingFile where
  classes := t.classes
  methods := t.renames.filter fun r => r.member.isMethod
  fields := t.renames.filter fun r => !r.member.isMethod

end MappingTable

end MixinNaming
