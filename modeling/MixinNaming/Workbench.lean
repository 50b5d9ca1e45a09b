import MixinNaming.ClassPass
import MixinNaming.MappingTable
/-! A remapper whose collaborators are filled in step by step, with a journal of all that its runs
reported, asked and decided. -/
namespace MixinNaming

structure Workbench where
  mappings : MappingTable
  hierarchy : Hierarchy
  policy : Policy
  journal : List Event

namespace Workbench

def empty : Workbench := ⟨.empty, .empty, .failFast, []⟩

def remapper (w : Workbench) : Remapper := ⟨w.mappings.naming, w.hierarchy, w.policy⟩

def withClass (w : Workbench) (c : String) (info : ClassInfo) : Workbench :=
  { w with hierarchy := w.hierarchy.withClass c info }

def withClassMapping (w : Workbench) (source renamed : String) : Workbench :=
  { w with mappings := w.mappings.withClass source renamed }

def withMemberMapping (w : Workbench) (r : Rename) : Workbench :=
  { w with mappings := w.mappings.withMember r }

def withPolicy (w : Workbench) (policy : Policy) : Workbench := { w with policy }

def record (w : Workbench) (events : List Event) : Workbench :=
  { w with journal := w.journal ++ events }

def remapClass (w : Workbench) (c : MixinClass) : Workbench × Edit MixinClass :=
  let run := w.remapper.remapClass c
  (w.record run.events, run)

def resolve (w : Workbench) (text : String) (targets : Option TargetSet)
    (filter : DescriptorFilter) : Workbench × Attempt String :=
  let run := w.remapper.resolveSelector "" text targets filter
  (w.record run.events, run)

def renames (w : Workbench) : List Rename := Event.renames w.journal

/-- How often the hierarchy was asked. -/
def calls (w : Workbench) : Nat := (Event.queries w.journal).length

/-- The first new name that was decided for a member of that name. -/
def renamedTo (w : Workbench) (name : String) : Option String :=
  (w.renames.find? fun r => r.member.name == name).map (·.newName)

end Workbench

end MixinNaming
