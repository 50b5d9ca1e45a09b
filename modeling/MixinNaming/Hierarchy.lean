import MixinNaming.Member
import MixinNaming.Table
/-! The classes of the source namespace with their supertypes and declared members. A member is
looked for in a class and, through superclass and interface edges, in everything above it; edges may
lead to unknown classes or around a cycle. -/
namespace MixinNaming

structure MemberSignature where
  name : String
  desc : String
  deriving DecidableEq, Repr

structure ClassInfo where
  superclass : Option String
  interfaces : List String
  members : List MemberSignature
  deriving DecidableEq, Repr

namespace ClassInfo

def empty : ClassInfo := ⟨none, [], []⟩

instance : Inhabited ClassInfo := ⟨empty⟩

def extending (i : ClassInfo) (superclass : String) : ClassInfo :=
  { i with superclass := some superclass }

def implementing (i : ClassInfo) (interface : String) : ClassInfo :=
  { i with interfaces := i.interfaces ++ [interface] }

def declaring (i : ClassInfo) (name desc : String) : ClassInfo :=
  { i with members := i.members ++ [⟨name, desc⟩] }

def declares (i : ClassInfo) (name desc : String) : Bool := i.members.contains ⟨name, desc⟩

def supertypes (i : ClassInfo) : List String := i.superclass.toList ++ i.interfaces

def refs (i : ClassInfo) (owner : String) : List MemberRef :=
  i.members.map fun m => ⟨owner, m.name, m.desc⟩

end ClassInfo

structure Hierarchy where
  classes : Table String ClassInfo

namespace Hierarchy

def empty : Hierarchy := ⟨.empty⟩

instance : Inhabited Hierarchy := ⟨empty⟩

def withClass (h : Hierarchy) (c : String) (info : ClassInfo) : Hierarchy :=
  ⟨h.classes.insert c info⟩

def get? (h : Hierarchy) (c : String) : Option ClassInfo := h.classes.get? c

def isUnseen (seen : List String) (entry : String × ClassInfo) : Bool := !seen.contains entry.1

/-- How many known classes a search has not been through: what bounds the search. -/
def unseen (h : Hierarchy) (seen : List String) : Nat :=
  h.classes.entries.countP (isUnseen seen)

theorem countP_unseen_le (c : String) (seen : List String) (es : List (String × ClassInfo)) :
    es.countP (isUnseen (c :: seen)) ≤ es.countP (isUnseen seen) := by
  refine List.countP_mono_left fun e _ he => ?_
  simp only [isUnseen, List.contains_cons, Bool.not_or, Bool.and_eq_true] at he ⊢
  exact he.2

theorem unseen_lt {h : Hierarchy} {seen : List String} {c : String} {info : ClassInfo}
    (hc : h.get? c = some info) (hs : c ∉ seen) : h.unseen (c :: seen) < h.unseen seen := by
  have hm := Table.mem_of_get? hc
  unfold unseen
  generalize h.classes.entries = es at hm
  induction es with
  | nil => simp at hm
  | cons e rest ih =>
    rw [List.countP_cons, List.countP_cons]
    rcases List.mem_cons.1 hm with rfl | hm
    · have := countP_unseen_le c seen rest
      have h1 : isUnseen (c :: seen) (c, info) = false := by simp [isUnseen]
      have h2 : isUnseen seen (c, info) = true := by simp [isUnseen, hs]
      rw [h1, h2]
      simp only [Bool.false_eq_true, if_false, if_true]
      omega
    · have := ih hm
      have he : isUnseen (c :: seen) e = true → isUnseen seen e = true := by
        simp only [isUnseen, List.contains_cons, Bool.not_or, Bool.and_eq_true]
        exact And.right
      by_cases h1 : isUnseen (c :: seen) e = true
      · simp only [h1, he h1, if_true]
        omega
      · rw [if_neg h1]
        omega

/-- Looks for a member in the waiting classes and everything above them. -/
def search (h : Hierarchy) (name desc : String) (seen waiting : List String) : Bool :=
  match waiting with
  | [] => false
  | c :: rest =>
    if _hs : c ∈ seen then h.search name desc seen rest
    else
      match _hc : h.get? c with
      | none => h.search name desc seen rest
      | some info =>
        info.declares name desc ||
          h.search name desc (c :: seen) (info.supertypes ++ rest)
termination_by (h.unseen seen, waiting.length)
decreasing_by
  · exact .right _ (by simp)
  · exact .right _ (by simp)
  · exact .left _ _ (unseen_lt _hc _hs)

/-- Whether the class or anything above it declares the member. -/
def declares (h : Hierarchy) (c name desc : String) : Bool := h.search name desc [] [c]

/-- The members that the class itself declares, if the class is known. -/
def listMembers (h : Hierarchy) (owner : String) : Option (List MemberRef) :=
  (h.get? owner).map (·.refs owner)

def agrees (part : Option String) (s : String) : Bool := part.all (· == s)

/-- The members that the class itself declares and that agree with the parts that are given. -/
def infer (h : Hierarchy) (owner : String) (name desc : Option String) : List MemberRef :=
  ((h.listMembers owner).getD []).filter fun m => agrees name m.name && agrees desc m.desc

end Hierarchy

end MixinNaming
