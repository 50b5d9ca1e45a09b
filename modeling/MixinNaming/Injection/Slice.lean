import MixinNaming.Injection.At
/-! A @Slice bounds a part of a method body by two @At annotations. -/
namespace MixinNaming.Remapper

def sliceTag (ordinal : Option Nat) : String :=
  "slice" ++
    (match ordinal with
     | some n => "[" ++ toString n ++ "]"
     | none => "")

def remapSliceElement (r : Remapper) (location place : String) (targets : TargetSet)
    (name : String) (v : AnnotationValue) : Edit AnnotationValue :=
  if name = "id" then .keep v
  else if name = "from" ∨ name = "to" then
    match v with
    | .nested node => (r.remapAtIn (location ++ "." ++ name) targets node).map .nested
    | other => .stop other (.illegal place (.sliceBoundaryKind name))
  else .check (r.report place (.sliceElement name)) v

/-- A @Slice of a handler, `ordinal` being its place in a list. -/
def remapSlice (r : Remapper) (owner member : String) (ordinal : Option Nat) (targets : TargetSet)
    (node : Annotation) : Edit Annotation :=
  let location := owner ++ "." ++ member ++ " " ++ sliceTag ordinal
  let place := insideAt "@Slice annotation" location
  if node.desc ≠ Vocabulary.sliceType then
    .stop node (.illegal place (.notSlice node.desc))
  else node.editElements (r.remapSliceElement location place targets)

end MixinNaming.Remapper
