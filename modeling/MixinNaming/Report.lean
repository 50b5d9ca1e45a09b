import MixinNaming.Document.Decode
import MixinNaming.Json.Printer
/-! The outcome of a run as a document: the class with its annotations renamed, and the renames that
were decided for its members. -/
namespace MixinNaming

structure Report where
  mixin : MixinClass
  renames : List Rename

namespace Report

def toJson (r : Report) : Json :=
  .object [("class", r.mixin.toJson), ("renames", .array (r.renames.map Rename.toJson))]

def render (r : Report) : String := r.toJson.pretty

end Report

def Decode.report : Nat → Json → Option Report
  | depth + 1, j => do
    match ← structureFields ["class", "renames"] j with
    | [mixin, renames] =>
      return ⟨← required (mixinClass depth) mixin, ← required (list rename depth) renames⟩
    | _ => none
  | 0, _ => none

end MixinNaming
