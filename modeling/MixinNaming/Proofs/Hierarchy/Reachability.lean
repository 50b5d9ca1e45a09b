import Mathlib.Logic.Relation
import MixinNaming.Hierarchy
/-! What a search through a hierarchy finds: the declarations of the classes that can be reached
over superclass and interface edges, also around cycles and past unknown classes. Two hierarchies
that agree on these classes give the same answer. -/
namespace MixinNaming

namespace Hierarchy

variable {h k : Hierarchy} {c d name desc : String} {seen waiting : List String}

def Edge (h : Hierarchy) (c d : String) : Prop := ∃ info, h.get? c = some info ∧ d ∈ info.supertypes

def Reaches (h : Hierarchy) : String → String → Prop := Relation.ReflTransGen h.Edge

/-- A known class that can be reached declares the member. -/
def Provides (h : Hierarchy) (name desc c : String) : Prop :=
  ∃ d info, h.Reaches c d ∧ h.get? d = some info ∧ info.declares name desc = true

/-- A set that no edge leads out of holds whatever can be reached from its members. -/
theorem Reaches.mem_of_closed {p : String → Prop} (hp : ∀ c d, p c → h.Edge c d → p d)
    (hc : p c) (hr : h.Reaches c d) : p d := by
  induction hr with
  | refl => exact hc
  | tail _ hedge ih => exact hp _ _ ih hedge

theorem provides_iff_of_known {info : ClassInfo} (hc : h.get? c = some info) :
    h.Provides name desc c ↔
      info.declares name desc = true ∨ ∃ s ∈ info.supertypes, h.Provides name desc s := by
  constructor
  · rintro ⟨d, found, hr, hd, hdeclares⟩
    rcases Relation.ReflTransGen.cases_head hr with rfl | ⟨s, ⟨info', hc', hs⟩, hr⟩
    · cases hc.symm.trans hd
      exact .inl hdeclares
    · cases hc.symm.trans hc'
      exact .inr ⟨s, hs, d, found, hr, hd, hdeclares⟩
  · rintro (hdeclares | ⟨s, hs, d, found, hr, hd, hdeclares⟩)
    · exact ⟨c, info, .refl, hc, hdeclares⟩
    · exact ⟨d, found, .head ⟨info, hc, hs⟩ hr, hd, hdeclares⟩

theorem not_provides_of_unknown (hc : h.get? c = none) : ¬h.Provides name desc c := by
  rintro ⟨d, info, hr, hd, -⟩
  rcases Relation.ReflTransGen.cases_head hr with rfl | ⟨s, ⟨info', hc', -⟩, -⟩
  · cases hc.symm.trans hd
  · cases hc.symm.trans hc'

/-- The classes that a search has been through do not declare the member, and their supertypes have
been seen too, or are waiting, or are unknown. -/
def Exhausted (h : Hierarchy) (name desc : String) (seen waiting : List String) : Prop :=
  ∀ c ∈ seen, ∃ info, h.get? c = some info ∧ info.declares name desc = false ∧
    ∀ s ∈ info.supertypes, s ∈ seen ∨ s ∈ waiting ∨ h.get? s = none

/-- What a class provides that the search has been through, a waiting class provides as well. -/
theorem Exhausted.provides (hseen : h.Exhausted name desc seen waiting) (hc : c ∈ seen)
    (hp : h.Provides name desc c) : ∃ w ∈ waiting, h.Provides name desc w := by
  obtain ⟨d, found, hr, hd, hdeclares⟩ := hp
  -- along the path to the declaration the first class that has not been seen is waiting
  induction hr using Relation.ReflTransGen.head_induction_on with
  | refl =>
    obtain ⟨info, hinfo, hnot, -⟩ := hseen d hc
    cases hinfo.symm.trans hd
    cases hnot.symm.trans hdeclares
  | @head c s hedge hr ih =>
    obtain ⟨info, hinfo, -, hsupertypes⟩ := hseen c hc
    obtain ⟨info', hinfo', hs⟩ := hedge
    cases hinfo.symm.trans hinfo'
    rcases hsupertypes s hs with hmem | hwaits | hunknown
    · exact ih hmem
    · exact ⟨s, hwaits, d, found, hr, hd, hdeclares⟩
    · exact absurd ⟨d, found, hr, hd, hdeclares⟩ (not_provides_of_unknown hunknown)

/-- A waiting class that has been seen or is unknown need not wait. -/
theorem Exhausted.drop (hseen : h.Exhausted name desc seen (c :: waiting))
    (hc : c ∈ seen ∨ h.get? c = none) : h.Exhausted name desc seen waiting := by
  intro x hx
  obtain ⟨info, hinfo, hnot, hsupertypes⟩ := hseen x hx
  refine ⟨info, hinfo, hnot, fun s hs => ?_⟩
  rcases hsupertypes s hs with hmem | hwaits | hunknown
  · exact .inl hmem
  · rcases List.mem_cons.1 hwaits with rfl | hwaits
    · exact hc.imp_right .inr
    · exact .inr (.inl hwaits)
  · exact .inr (.inr hunknown)

theorem Exhausted.visit (hseen : h.Exhausted name desc seen (c :: waiting)) {info : ClassInfo}
    (hc : h.get? c = some info) (hnot : info.declares name desc = false) :
    h.Exhausted name desc (c :: seen) (info.supertypes ++ waiting) := by
  intro x hx
  rcases List.mem_cons.1 hx with rfl | hx
  · exact ⟨info, hc, hnot, fun s hs => .inr (.inl (List.mem_append_left _ hs))⟩
  · obtain ⟨info', hinfo', hnot', hsupertypes⟩ := hseen x hx
    refine ⟨info', hinfo', hnot', fun s hs => ?_⟩
    rcases hsupertypes s hs with hmem | hwaits | hunknown
    · exact .inl (List.mem_cons_of_mem _ hmem)
    · rcases List.mem_cons.1 hwaits with rfl | hwaits
      · exact .inl List.mem_cons_self
      · exact .inr (.inl (List.mem_append_right _ hwaits))
    · exact .inr (.inr hunknown)

theorem search_eq_true_iff (hseen : h.Exhausted name desc seen waiting) :
    h.search name desc seen waiting = true ↔ ∃ w ∈ waiting, h.Provides name desc w := by
  fun_induction h.search name desc seen waiting with
  | case1 seen => simp
  | case2 seen c rest hc ih =>
    have hrest := hseen.drop (.inl hc)
    simp only [ih hrest, List.mem_cons, exists_eq_or_imp]
    exact ⟨.inr, fun hfound => hfound.elim (hrest.provides hc) id⟩
  | case3 seen c rest hc hunknown ih =>
    have hnot : ¬h.Provides name desc c := not_provides_of_unknown hunknown
    simp only [ih (hseen.drop (.inr hunknown)), List.mem_cons, exists_eq_or_imp, hnot, false_or]
  | case4 seen c rest hc info hinfo ih =>
    simp only [List.mem_cons, exists_eq_or_imp, provides_iff_of_known hinfo, Bool.or_eq_true]
    cases hdeclares : info.declares name desc with
    | true => simp
    | false =>
      simp only [ih (hseen.visit hinfo hdeclares), List.mem_append, or_and_right, exists_or,
        Bool.false_eq_true, false_or]

/-- A class has a member in its hierarchy exactly if a known class that it reaches declares it. -/
theorem declares_eq_true_iff : h.declares c name desc = true ↔ h.Provides name desc c := by
  have hnone : h.Exhausted name desc [] [c] := fun x hx => by cases hx
  rw [declares, search_eq_true_iff hnone]
  simp

def AgreesAbove (h k : Hierarchy) (c : String) : Prop := ∀ d, h.Reaches c d → h.get? d = k.get? d

theorem AgreesAbove.reaches_iff (hk : h.AgreesAbove k c) : h.Reaches c d ↔ k.Reaches c d := by
  constructor
  · intro hr
    induction hr with
    | refl => exact .refl
    | tail hr hedge ih =>
      obtain ⟨info, hinfo, hs⟩ := hedge
      exact ih.tail ⟨info, (hk _ hr).symm.trans hinfo, hs⟩
  · intro hr
    induction hr with
    | refl => exact .refl
    | tail _ hedge ih =>
      obtain ⟨info, hinfo, hs⟩ := hedge
      exact ih.tail ⟨info, (hk _ ih).trans hinfo, hs⟩

/-- It does not matter in which of two hierarchies the classes are reached. -/
theorem AgreesAbove.symm (hk : h.AgreesAbove k c) : k.AgreesAbove h c :=
  fun d hd => (hk d (hk.reaches_iff.2 hd)).symm

theorem AgreesAbove.provides (hk : h.AgreesAbove k c) (hp : h.Provides name desc c) :
    k.Provides name desc c := by
  obtain ⟨d, info, hr, hd, hdeclares⟩ := hp
  exact ⟨d, info, hk.reaches_iff.1 hr, (hk d hr).symm.trans hd, hdeclares⟩

theorem AgreesAbove.declares (hk : h.AgreesAbove k c) :
    h.declares c name desc = k.declares c name desc := by
  rw [Bool.eq_iff_iff, declares_eq_true_iff, declares_eq_true_iff]
  exact ⟨hk.provides, hk.symm.provides⟩

theorem AgreesAbove.get? (hk : h.AgreesAbove k c) : h.get? c = k.get? c := hk c .refl

theorem AgreesAbove.listMembers (hk : h.AgreesAbove k c) : h.listMembers c = k.listMembers c := by
  rw [Hierarchy.listMembers, Hierarchy.listMembers, hk.get?]

theorem AgreesAbove.infer (hk : h.AgreesAbove k c) (name desc : Option String) :
    h.infer c name desc = k.infer c name desc := by
  rw [Hierarchy.infer, Hierarchy.infer, hk.listMembers]

/-- A class that cannot be reached may be added, changed or removed. -/
theorem agreesAbove_of_differs (hk : ∀ x, x ≠ d → h.get? x = k.get? x) (hd : ¬h.Reaches c d) :
    h.AgreesAbove k c := by
  intro x hx
  refine hk x ?_
  rintro rfl
  exact hd hx

end Hierarchy

end MixinNaming
