import MixinNaming.Proofs.Frame.Edits
import MixinNaming.Proofs.Qualified.Canonical
import MixinNaming.Proofs.TargetOrder.Members
import MixinNaming.Selector.Value
/-! What a run that tolerates no gap makes of a selector: the full name, in the target namespace, of
one member that the selector stands for. -/
namespace MixinNaming

open Selector (ofMember)

structure Remapper.Strict (r : Remapper) : Prop where
  naming : r.naming.WellFormed
  hierarchy : r.hierarchy.WellFormed
  refuses : ∀ gap, r.policy.refusal gap ≠ none

/-- A member that a text names in full, or that agrees with the parts of the text and is accepted
where the text is looked up. -/
def Remapper.StandsFor (r : Remapper) (targets : Option TargetSet) (filter : DescriptorFilter)
    (text : String) (m : MemberRef) : Prop :=
  ∃ s, Selector.parse text = .ok s ∧
    (s.qualified? = some m ∨ s.qualified? = none ∧ ∃ t ∈ targets, ∃ c ∈ scopeOf s t,
      m ∈ r.hierarchy.infer c s.name s.desc ∧ filter.accepts m.desc = true)

/-- The text after a run is the full name of a member that the text before it stands for, and reads
back as that name. -/
def Remapper.Settled (r : Remapper) (targets : Option TargetSet) (filter : DescriptorFilter)
    (written renamed : String) : Prop :=
  ∃ m desc, r.StandsFor targets filter written m ∧ r.naming.signature m.desc = .ok desc ∧
    renamed = (ofMember (r.naming.target m desc)).render ∧
    Selector.parse renamed = .ok (ofMember (r.naming.target m desc))

namespace Selector

theorem eq_ofMember_of_qualified {s : Selector} {m : MemberRef} (h : s.qualified? = some m) :
    s = ofMember m := by
  obtain ⟨owner, name, desc⟩ := s
  cases owner with
  | none => cases h
  | some owner =>
    cases name with
    | none => cases h
    | some name =>
      cases desc with
      | none => cases h
      | some desc =>
        cases h
        rfl

end Selector

namespace Hierarchy

theorem WellFormed.of_infer {h : Hierarchy} (hh : h.WellFormed) {c : String}
    {name desc : Option String} {m : MemberRef} (hm : m ∈ h.infer c name desc) :
    (ofMember m).WellFormed := by
  obtain ⟨hm, -⟩ := List.mem_filter.1 hm
  rw [listMembers] at hm
  cases hc : h.get? c with
  | none =>
    rw [hc] at hm
    cases hm
  | some info =>
    rw [hc] at hm
    obtain ⟨declared, hdeclared, rfl⟩ := List.mem_map.1 hm
    exact hh (c, info) (Table.mem_of_get? hc) declared hdeclared

end Hierarchy

namespace Remapper

variable {r : Remapper} {location text : String} {targets : Option TargetSet}
  {filter : DescriptorFilter}

theorem StandsFor.wellFormed (hr : r.Strict) {m : MemberRef}
    (h : r.StandsFor targets filter text m) : (ofMember m).WellFormed := by
  obtain ⟨s, hs, hqualified | ⟨-, t, -, c, -, hm, -⟩⟩ := h
  · rw [← Selector.eq_ofMember_of_qualified hqualified]
    exact (Selector.parse_eq_ok_iff.1 hs).2
  · exact hr.hierarchy.of_infer hm

theorem report_ne_ok (hr : r.Strict) (feature : Feature) (a : Unit) :
    (r.report location feature).result ≠ .ok a := by
  obtain ⟨f, hf⟩ := Option.ne_none_iff_exists'.1 (hr.refuses ⟨location, feature⟩)
  rw [report_of_refused hf]
  exact nofun

theorem canonical_result {m : MemberRef} {s : Selector} :
    (r.canonical location m).result = .ok s ↔ r.naming.canonical m = .ok s := by
  exact except_mapError_eq_ok

/-- A selector that the run has resolved. -/
theorem StandsFor.settled (hr : r.Strict) {m : MemberRef} {s : Selector}
    (h : r.StandsFor targets filter text m) (hs : r.naming.canonical m = .ok s) :
    r.Settled targets filter text s.render := by
  obtain ⟨desc, hdesc, rfl⟩ := Naming.canonical_eq_ok.1 hs
  have hwell := (hr.naming.wellFormedAt m).target (h.wellFormed hr) hdesc
  exact ⟨m, desc, h, hdesc, rfl, Selector.parse_render hwell⟩

/-- The full name of a member is settled as the full name of that member. -/
theorem Settled.of_qualified {m : MemberRef} {renamed : String}
    (h : r.Settled targets filter text renamed) (hm : Selector.parse text = .ok (ofMember m)) :
    ∃ desc, r.naming.signature m.desc = .ok desc ∧
      renamed = (ofMember (r.naming.target m desc)).render := by
  obtain ⟨m', desc, ⟨s, hs, hstands⟩, hdesc, hrenamed, -⟩ := h
  cases hm.symm.trans hs
  rcases hstands with hqualified | ⟨hnone, -⟩
  · cases hqualified
    exact ⟨desc, hdesc, hrenamed⟩
  · cases hnone

/-- A selector that stands for no single member stays, and the gap is passed over. -/
theorem leaveUnresolved_eq_ok {scope : List String} {out : String} :
    (r.leaveUnresolved location text scope).result = .ok out ↔
      (r.report location (.unresolvedSelector text (r.knownMembers scope))).result = .ok () ∧
        out = text := by
  rw [leaveUnresolved, Attempt.bind_eq_ok]
  constructor
  · rintro ⟨⟨⟩, hreport, ⟨⟩⟩
    exact ⟨hreport, rfl⟩
  · rintro ⟨hreport, rfl⟩
    exact ⟨(), hreport, rfl⟩

theorem inferSelector_eq_ok {s : Selector} {t : TargetSet} {out : String}
    (h : (r.inferSelector location text s t filter).result = .ok out) :
    (∃ c ∈ scopeOf s t, ∃ m ∈ r.hierarchy.infer c s.name s.desc, filter.accepts m.desc = true ∧
      ∃ resolved, r.naming.canonical m = .ok resolved ∧ out = resolved.render) ∨
      (r.leaveUnresolved location text (scopeOf s t)).result = .ok out := by
  obtain ⟨candidates, hcandidates, h⟩ := Attempt.bind_eq_ok.1 h
  rw [inferCandidates_result] at hcandidates
  cases hcandidates
  obtain ⟨found, hfound, h⟩ := Attempt.bind_eq_ok.1 h
  cases found with
  | none => exact .inr h
  | some resolved =>
    cases h
    refine .inl ?_
    obtain ⟨-, hnone | ⟨m, hm, hvote⟩⟩ := agree_eq_ok.1 hfound
    · cases hnone
    · obtain ⟨c, hc, hm⟩ := List.mem_flatMap.1 hm
      obtain ⟨hm, haccepts⟩ := List.mem_filter.1 hm
      obtain ⟨s', hs', hvote⟩ := Attempt.bind_eq_ok.1 hvote
      cases hvote
      exact ⟨c, hc, m, hm, haccepts, resolved, canonical_result.1 hs', rfl⟩

/-- Whatever is resolved without a gap is settled. -/
theorem resolveSelector_settled (hr : r.Strict) {out : String}
    (h : (r.resolveSelector location text targets filter).result = .ok out) :
    r.Settled targets filter text out := by
  rw [resolveSelector] at h
  split at h
  · cases h
  · next s hs =>
    split at h
    · next m hqualified =>
      obtain ⟨resolved, hresolved, h⟩ := Attempt.bind_eq_ok.1 h
      cases h
      exact StandsFor.settled hr ⟨s, hs, .inl hqualified⟩ (canonical_result.1 hresolved)
    · next t hpartial =>
      rcases inferSelector_eq_ok h with ⟨c, hc, m, hm, haccepts, resolved, hresolved, rfl⟩ | h
      · exact StandsFor.settled hr ⟨s, hs, .inr ⟨hpartial, t, rfl, c, hc, hm, haccepts⟩⟩ hresolved
      · exact absurd (leaveUnresolved_eq_ok.1 h).1 (report_ne_ok hr _ _)
    · exact absurd (leaveUnresolved_eq_ok.1 h).1 (report_ne_ok hr _ _)

end Remapper

end MixinNaming
