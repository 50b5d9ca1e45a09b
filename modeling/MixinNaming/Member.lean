import MixinNaming.Descriptor.Text
/-! A reference to one field or method of one class, the renaming of such a member, and the order
in which member tables are listed. A descriptor that opens with a parenthesis marks a method. -/
namespace MixinNaming

structure MemberRef where
  owner : String
  name : String
  desc : String
  deriving DecidableEq, Repr, Inhabited

structure Rename where
  member : MemberRef
  newName : String
  deriving DecidableEq, Repr

namespace MemberRef

def isMethod (m : MemberRef) : Bool := Descriptor.isMethod m.desc

/-- The word that diagnostics use for the member. -/
def noun (m : MemberRef) : String := if m.isMethod then "method" else "field"

def render (m : MemberRef) : String :=
  m.owner ++ "." ++ m.name ++ (if m.isMethod then m.desc else ":" ++ m.desc)

def renderList (members : List MemberRef) : String :=
  "[" ++ String.intercalate ", " (members.map render) ++ "]"

/-- By owner, then by name, then by descriptor. -/
instance : Ord MemberRef where
  compare := compareLex (compareOn owner) (compareLex (compareOn name) (compareOn desc))

theorem compare_def : (compare : MemberRef → MemberRef → Ordering) =
    compareLex (compareOn owner) (compareLex (compareOn name) (compareOn desc)) := rfl

instance : Std.TransOrd MemberRef :=
  inferInstanceAs
    (Std.TransCmp (compareLex (compareOn owner) (compareLex (compareOn name) (compareOn desc))))

instance : Std.LawfulEqOrd MemberRef where
  eq_of_compare {a b} h := by
    rw [compare_def] at h
    simp only [compareLex, compareOn, Ordering.then_eq_eq] at h
    obtain ⟨ho, hn, hd⟩ := h
    cases a
    cases b
    simp_all

end MemberRef

end MixinNaming
