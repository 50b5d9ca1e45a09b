import MixinNaming.Proofs.Desc.Renaming
import MixinNaming.Proofs.Frame.References
import MixinNaming.Proofs.Idempotence.Edits
import MixinNaming.Proofs.Qualified.Composition
/-! References to members in a run that renames nothing. A selector is written out in full and a
@Desc has its argument types taken apart; what comes of it is read as the same reference again. -/
namespace MixinNaming

open Annotation (contains_eq_isSome get?_set_of_ne get?_set_self set_eq_self_iff)
open Selector (ofMember)

structure Remapper.Unmapped (r : Remapper) : Prop where
  naming : r.naming = MappingTable.empty.naming
  hierarchy : r.hierarchy.WellFormed

namespace MappingTable

variable {d out : String}

theorem methodSignature_empty (h : empty.naming.methodSignature d = .ok out) : out = d := by
  rw [Naming.methodSignature] at h
  split at h
  · exact (signature_empty.1 h).2
  · cases h

theorem fieldSignature_empty (h : empty.naming.fieldSignature d = .ok out) : out = d := by
  rw [Naming.fieldSignature] at h
  split at h
  · cases h
  · exact (signature_empty.1 h).2

end MappingTable

namespace DescReference

variable {n : Naming} {mode : DescMode} {node typed : Annotation} {d : DescReference}

theorem renameTypes_method_eq_ok : d.renameTypes n .method node = .ok typed ↔
    ∃ desc, n.methodSignature d.desc = .ok desc ∧
      ∃ parts, Descriptor.split desc = .ok parts ∧ d.putTypes parts.1 parts.2 node = typed := by
  change (n.methodSignature d.desc).bind (fun desc => (Descriptor.split desc).bind fun parts =>
    .ok (d.putTypes parts.1 parts.2 node)) = .ok typed ↔ _
  simp only [except_bind_eq_ok, Except.ok.injEq]

theorem renameTypes_field_eq_ok {type : String} (h : d.result = some type) :
    d.renameTypes n .field node = .ok typed ↔
      ∃ desc, n.fieldSignature d.desc = .ok desc ∧ node.set "ret" (.type ⟨desc⟩) = typed := by
  rw [renameTypes, h]
  change (n.fieldSignature d.desc).bind (fun desc => .ok (node.set "ret" (.type ⟨desc⟩))) =
    .ok typed ↔ _
  simp only [except_bind_eq_ok, Except.ok.injEq]

theorem renameTypes_untyped (h : d.result = none) : d.renameTypes n .field node = .ok node := by
  rw [renameTypes, h]
  rfl

/-- Types that have been put into a node are there. -/
theorem putTypes_putTypes (d : DescReference) (arguments : List String) (result : String)
    (node : Annotation) :
    d.putTypes arguments result (d.putTypes arguments result node) =
      d.putTypes arguments result node := by
  let middle := if d.result.isSome then node.set "ret" (.type ⟨result⟩) else node
  have hret : ∀ a : Annotation, a.get? "ret" = middle.get? "ret" →
      (if d.result.isSome then a.set "ret" (.type ⟨result⟩) else a) = a := by
    intro a ha
    split
    next hsome =>
      refine set_eq_self_iff.2 (ha.trans ?_)
      rw [show middle = node.set "ret" (.type ⟨result⟩) from if_pos hsome]
      exact node.get?_set_self "ret" _
    next => rfl
  have hput : d.putTypes arguments result node = if middle.contains "args" then
      middle.set "args" (.array (literals arguments)) else middle := rfl
  by_cases hargs : middle.contains "args" = true
  · rw [if_pos hargs] at hput
    have hself : (middle.set "args" (.array (literals arguments))).get? "args" =
        some (.array (literals arguments)) := get?_set_self _ _ _
    rw [hput, putTypes, hret _ (get?_set_of_ne (by decide) _)]
    rw [contains_eq_isSome, hself]
    exact set_eq_self_iff.2 hself
  · rw [if_neg hargs] at hput
    rw [hput, putTypes, hret _ rfl, if_neg hargs]

theorem renameTypes_again (h : d.renameTypes n mode node = .ok typed) :
    d.renameTypes n mode typed = .ok typed := by
  cases mode with
  | method =>
    obtain ⟨desc, hdesc, parts, hparts, rfl⟩ := renameTypes_method_eq_ok.1 h
    exact renameTypes_method_eq_ok.2 ⟨desc, hdesc, parts, hparts, putTypes_putTypes d _ _ node⟩
  | field =>
    cases hresult : d.result with
    | none => exact renameTypes_untyped hresult
    | some type =>
      obtain ⟨desc, hdesc, rfl⟩ := (renameTypes_field_eq_ok hresult).1 h
      refine (renameTypes_field_eq_ok hresult).2 ⟨desc, hdesc, set_eq_self_iff.2 ?_⟩
      exact node.get?_set_self "ret" _

theorem States.renameTypes_empty (h : States mode node d)
    (htypes : d.renameTypes MappingTable.empty.naming mode node = .ok typed) :
    States mode typed d := by
  cases mode with
  | field =>
    cases hresult : d.result with
    | none =>
      cases (renameTypes_untyped hresult).symm.trans htypes
      exact h
    | some type =>
      obtain ⟨desc, hdesc, rfl⟩ := (renameTypes_field_eq_ok hresult).1 htypes
      obtain rfl := MappingTable.fieldSignature_empty hdesc
      have hspelt : d.desc = type := by
        have htypes : d.desc = d.result.getD "V" := h.types
        rw [htypes, hresult]
        rfl
      have hold := h.result
      rw [hresult, ← hspelt] at hold
      rwa [set_eq_self_iff.2 hold]
  | method =>
    obtain ⟨desc, hdesc, ⟨arguments, result⟩, hparts, rfl⟩ := renameTypes_method_eq_ok.1 htypes
    obtain rfl := MappingTable.methodSignature_empty hdesc
    obtain ⟨m, hlegal, hrender, rfl, rfl⟩ := Descriptor.split_eq_ok_iff.1 hparts
    have hresult := h.result_eq hlegal hrender
    have hput := h.putTypes (m.arguments.map FieldType.render) m.renderResult
      (fun hnone => by rw [← hresult, hnone]; rfl)
      (fun hnone => by rw [h.arguments_eq_nil hlegal hrender hnone]; rfl)
    -- the parts make up the same descriptor and end in the same result
    have hsame : d.result.map (fun _ => m.renderResult) = d.result := by
      rw [← hresult]
      cases d.result with
      | none => rfl
      | some type => rfl
    rw [Descriptor.build_of_split hparts, hsame] at hput
    exact hput

theorem States.renameOwner_empty (h : States mode node d) :
    d.renameOwner MappingTable.empty.naming node = node := by
  rw [DescReference.renameOwner]
  cases howner : d.owner with
  | none => rfl
  | some owner =>
    have hnode := h.owner
    rw [howner] at hnode
    exact set_eq_self_iff.2 hnode

end DescReference

namespace Remapper

variable {r : Remapper} (hr : r.Unmapped)
include hr

/-- A selector comes out as it stands, or as the full name of a member that it stands for. -/
theorem resolveSelector_unmapped {location text out : String} {targets : Option TargetSet}
    {filter : DescriptorFilter}
    (h : (r.resolveSelector location text targets filter).result = .ok out) :
    out = text ∨ ∃ m, (ofMember m).WellFormed ∧ r.naming.canonical m = .ok (ofMember m) ∧
      out = (ofMember m).render := by
  rw [resolveSelector] at h
  split at h
  · cases h
  · next s hs =>
    split at h
    · next m hqualified =>
      obtain ⟨resolved, hresolved, h⟩ := Attempt.bind_eq_ok.1 h
      cases h
      have hcanonical := canonical_result.1 hresolved
      rw [hr.naming] at hcanonical
      obtain ⟨-, rfl⟩ := MappingTable.canonical_empty.1 hcanonical
      have hwell := (Selector.parse_eq_ok_iff.1 hs).2
      rw [Selector.eq_ofMember_of_qualified hqualified] at hwell
      exact .inr ⟨m, hwell, hr.naming ▸ hcanonical, rfl⟩
    · rcases inferSelector_eq_ok h with ⟨c, -, m, hm, -, resolved, hcanonical, rfl⟩ | h
      · rw [hr.naming] at hcanonical
        obtain ⟨-, rfl⟩ := MappingTable.canonical_empty.1 hcanonical
        exact .inr ⟨m, hr.hierarchy.of_infer hm, hr.naming ▸ hcanonical, rfl⟩
      · exact .inl (leaveUnresolved_eq_ok.1 h).2
    · exact .inl (leaveUnresolved_eq_ok.1 h).2

/-- The full name of a member is read as the name of that member. -/
theorem resolveSelector_again {location text out : String} {targets : Option TargetSet}
    {filter : DescriptorFilter}
    (h : (r.resolveSelector location text targets filter).result = .ok out) :
    (r.resolveSelector location out targets filter).result = .ok out := by
  rcases resolveSelector_unmapped hr h with heq | ⟨m, hwell, hcanonical, rfl⟩
  · rw [heq] at h ⊢
    exact h
  · rw [resolveSelector_qualified (Selector.parse_render hwell) hcanonical]
    rfl

theorem newName_unmapped {d : DescReference} {location : String} {mode : DescMode} {t : TargetSet}
    {name : String} (h : (d.newName r location mode t).result = .ok name) : name = d.name := by
  obtain ⟨hne, hall⟩ := DescReference.newName_eq_ok.1 h
  obtain ⟨owner, howner⟩ := List.exists_mem_of_ne_nil _ hne
  rw [← hall owner howner, hr.naming]
  cases mode with
  | method => rfl
  | field => rfl

theorem remapDesc_idempotent (location : String) (t : TargetSet) (mode : DescMode) :
    Edit.Idempotent (r.remapDesc location t mode) := by
  intro node h
  obtain ⟨d, name, typed, hsteps⟩ := remapDesc_fault_eq_none.1 h
  obtain ⟨hunknown, hgap, hstates⟩ := DescReference.read_eq_ok.1 hsteps.read
  obtain rfl := newName_unmapped hr hsteps.newName
  have htypes := hsteps.types
  rw [set_eq_self_iff.2 hstates.name, hr.naming] at htypes
  have htyped := hstates.renameTypes_empty htypes
  have hvalue : (r.remapDesc location t mode node).value = typed := by
    rw [hsteps.value, hr.naming, htyped.renameOwner_empty]
  have hnames := (r.remapDesc_frame location t mode node).names_eq
  rw [hvalue] at hnames ⊢
  have hagain : r.RenamesDesc location t mode typed d d.name typed := by
    refine ⟨DescReference.read_eq_ok.2 ⟨?_, hgap, htyped⟩, hsteps.newName, ?_⟩
    · rw [hnames]
      exact hunknown
    · rw [set_eq_self_iff.2 htyped.name, hr.naming]
      exact DescReference.renameTypes_again htypes
  refine ⟨remapDesc_fault_eq_none.2 ⟨d, d.name, typed, hagain⟩, ?_⟩
  rw [hagain.value, hr.naming, htyped.renameOwner_empty]

variable (owner : String) (t : TargetSet) (filter : DescriptorFilter)

theorem remapSelectorValue_idempotent (index : Nat) : Edit.Idempotent fun v =>
    r.remapSelectorValue (selectorLocation owner index v) t filter v := by
  intro v h
  cases v with
  | string text =>
    obtain ⟨out, hout, -⟩ := Edit.given_fault_eq_none.1 h
    have hvalue : (r.remapSelectorValue (selectorLocation owner index (.string text)) t filter
        (.string text)).value = .string out := Edit.given_value hout _ _
    dsimp only
    rw [hvalue]
    exact Edit.Leaves.replace (resolveSelector_again hr hout) rfl (AnnotationValue.string out)
  | nested node => exact (remapDesc_idempotent hr _ t .method node h).map AnnotationValue.nested
  | _ => cases h

theorem remapSelectorList_idempotent : Edit.Idempotent (r.remapSelectorList owner t filter) := by
  refine .items (remapSelectorValue_idempotent hr owner t filter) fun index v h => ?_
  cases v with
  | string text =>
    obtain ⟨out, hout, -⟩ := Edit.given_fault_eq_none.1 h
    rw [remapSelectorValue, Edit.replace, Edit.given_value hout]
    rfl
  | nested node => rfl
  | _ => cases h

end Remapper

end MixinNaming
