/-! A class-typed annotation value, held as its descriptor. -/
namespace MixinNaming

structure ClassLiteral where
  descriptor : String
  deriving DecidableEq, Repr

namespace ClassLiteral

/-- The reference type of an internal name. -/
def object (internalName : String) : ClassLiteral := ⟨"L" ++ internalName ++ ";"⟩

/-- The name between the `L` and the final semicolon of a reference type. -/
def reference? (t : ClassLiteral) : Option String :=
  match t.descriptor.toList with
  | 'L' :: c :: rest =>
    if (c :: rest).getLast? = some ';' ∧ rest ≠ [] then some (.ofList (c :: rest).dropLast)
    else none
  | _ => none

def isReference (t : ClassLiteral) : Bool := t.reference?.isSome

/-- The class name of a reference type; the descriptor itself of an array or a primitive. -/
def internalName (t : ClassLiteral) : String := t.reference?.getD t.descriptor

end ClassLiteral

end MixinNaming
