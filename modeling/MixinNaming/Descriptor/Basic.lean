/-! Types as descriptors spell them: a field type is a number of array dimensions over a primitive
or a class reference. Rendering is over characters, so that it can be compared with a reader. -/
namespace MixinNaming

inductive Primitive where
  | byte | char | double | float | int | long | short | boolean
  deriving DecidableEq, Repr

def Primitive.code : Primitive → Char
  | .byte => 'B'
  | .char => 'C'
  | .double => 'D'
  | .float => 'F'
  | .int => 'I'
  | .long => 'J'
  | .short => 'S'
  | .boolean => 'Z'

def Primitive.ofCode? : Char → Option Primitive
  | 'B' => some .byte
  | 'C' => some .char
  | 'D' => some .double
  | 'F' => some .float
  | 'I' => some .int
  | 'J' => some .long
  | 'S' => some .short
  | 'Z' => some .boolean
  | _ => none

@[simp] theorem Primitive.ofCode?_code (p : Primitive) : ofCode? p.code = some p := by
  cases p <;> rfl

theorem Primitive.code_of_ofCode? {c : Char} {p : Primitive} (h : ofCode? c = some p) :
    p.code = c := by
  unfold ofCode? at h
  split at h <;> simp_all <;> subst h <;> rfl

inductive BaseType where
  | primitive (p : Primitive)
  | reference (name : String)
  deriving DecidableEq, Repr

structure FieldType where
  dimensions : Nat
  base : BaseType
  deriving DecidableEq, Repr

/-- Characters that a class name inside a descriptor may hold. -/
def isNameChar (c : Char) : Bool := c ≠ ';' && c ≠ '.' && c ≠ '[' && c ≠ '(' && c ≠ ')'

def BaseType.chars : BaseType → List Char
  | .primitive p => [p.code]
  | .reference name => 'L' :: (name.toList ++ [';'])

def FieldType.chars (t : FieldType) : List Char :=
  List.replicate t.dimensions '[' ++ t.base.chars

end MixinNaming
