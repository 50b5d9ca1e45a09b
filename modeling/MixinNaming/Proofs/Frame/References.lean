import MixinNaming.Proofs.Desc.Reading
import MixinNaming.Proofs.Frame.Edits
/-! References to members keep their form: a selector stays a text, and a @Desc keeps its elements,
of which only the argument types may be listed anew. -/
namespace MixinNaming

namespace DescReference

variable {r : Remapper} {location : String} {mode : DescMode} {node : Annotation}
  {d : DescReference}

structure ReadFrom (mode : DescMode) (node : Annotation) (d : DescReference) : Prop where
  desc : node.desc = Vocabulary.descType
  value : ∃ name, node.get? "value" = some (.string name)
  owner : d.owner.isSome = true → ∃ t, node.get? "owner" = some (.type t)
  result : d.result.isSome = true → ∃ t, node.get? "ret" = some (.type t)
  arguments : mode = .method → ∀ v, node.get? "args" = some v → ∀ x ∈ v.items, x.type?.isSome = true

theorem States.readFrom (h : States mode node d) : ReadFrom mode node d where
  desc := h.desc
  value := ⟨d.name, h.name⟩
  owner hsome := by
    obtain ⟨owner, howner⟩ := Option.isSome_iff_exists.1 hsome
    exact ⟨.object owner, by rw [h.owner, howner]; rfl⟩
  result hsome := by
    obtain ⟨t, ht⟩ := Option.isSome_iff_exists.1 hsome
    exact ⟨⟨t⟩, by rw [h.result, ht]; rfl⟩
  arguments hmode v hv x hx := by
    subst hmode
    obtain ⟨arguments, hitems, -⟩ := h.types
    have hliterals : v.items = literals arguments := by
      rw [← hitems, argumentItems, hv]
    rw [hliterals] at hx
    obtain ⟨t, -, rfl⟩ := List.mem_map.1 hx
    rfl

theorem readFrom_of_read (h : (read r location mode node).result = .ok d) :
    ReadFrom mode node d :=
  (read_eq_ok.1 h).2.2.readFrom

namespace ReadFrom

variable {other : Annotation}

/-- What rules make of a node can be read like the node. -/
theorem of_frame (h : ReadFrom mode node d) (hframe : NodeFrame node other) :
    ReadFrom mode other d := by
  have hvalue : ∀ {name v}, isEditable Vocabulary.descType name = true →
      node.get? name = some v → ∃ w, other.get? name = some w ∧ ValueFrame v w := by
    intro name v hname hv
    rcases hframe.get? name with ⟨hnone, -⟩ | ⟨v', w, hv', hw, helement⟩
    · rw [hv] at hnone
      cases hnone
    · rw [hv] at hv'
      obtain rfl := Option.some.inj hv'
      rw [h.desc] at helement
      exact ⟨w, hw, helement.valueFrame hname⟩
  have htype : ∀ {name}, isEditable Vocabulary.descType name = true →
      (∃ t, node.get? name = some (.type t)) → ∃ t, other.get? name = some (.type t) := by
    rintro name hname ⟨t, ht⟩
    obtain ⟨w, hw, htw⟩ := hvalue hname ht
    cases htw with
    | same _ => exact ⟨t, hw⟩
    | type _ u => exact ⟨u, hw⟩
  refine ⟨hframe.desc_eq.trans h.desc, ?_, fun howner => htype (by decide) (h.owner howner),
    fun hresult => htype (by decide) (h.result hresult), ?_⟩
  · obtain ⟨name, hname⟩ := h.value
    obtain ⟨w, hw, hnw⟩ := hvalue (by decide) hname
    cases hnw with
    | same _ => exact ⟨name, hw⟩
    | string _ text => exact ⟨text, hw⟩
  · intro hmode w hw
    rcases hframe.get? "args" with ⟨-, hnone⟩ | ⟨v, w', hv, hw', helement⟩
    · rw [hw] at hnone
      cases hnone
    · rw [hw] at hw'
      obtain rfl := Option.some.inj hw'
      rw [h.desc] at helement
      cases helement with
      | fixed _ _ _ => exact h.arguments hmode w hv
      | edited hname _ => exact absurd hname (by decide)
      | arguments _ types =>
        intro x hx
        obtain ⟨t, -, rfl⟩ := List.mem_map.1 hx
        rfl

theorem frame_setName (h : ReadFrom mode node d) (name : String) :
    NodeFrame node (node.set "value" (.string name)) := by
  obtain ⟨old, hold⟩ := h.value
  refine .set hold ?_
  rw [h.desc]
  exact .edited (by decide) (.string old name)

theorem frame_setResult (h : ReadFrom mode node d) (hresult : d.result.isSome = true)
    (t : ClassLiteral) : NodeFrame node (node.set "ret" (.type t)) := by
  obtain ⟨old, hold⟩ := h.result hresult
  refine .set hold ?_
  rw [h.desc]
  exact .edited (by decide) (.type old t)

theorem frame_setArguments (h : ReadFrom .method node d) (hargs : node.contains "args" = true)
    (types : List String) :
    NodeFrame node (node.set "args" (.array (types.map fun t => .type ⟨t⟩))) := by
  have hsome : (node.get? "args").isSome = true := by
    rwa [← Annotation.contains_eq_isSome]
  obtain ⟨old, hold⟩ := Option.isSome_iff_exists.1 hsome
  refine .set hold ?_
  have harguments := ElementFrame.arguments (h.arguments rfl old hold) (types.map .mk)
  rw [List.map_map] at harguments
  rw [h.desc]
  exact harguments

theorem frame_renameOwner (h : ReadFrom mode node d) (n : Naming) :
    NodeFrame node (d.renameOwner n node) := by
  rw [renameOwner]
  split
  · next owner howner =>
    obtain ⟨old, hold⟩ := h.owner (by rw [howner]; rfl)
    refine .set hold ?_
    rw [h.desc]
    exact .edited (by decide) (.type old _)
  · exact .same node

theorem frame_renameTypes (h : ReadFrom mode node d) {n : Naming} {typed : Annotation}
    (ht : d.renameTypes n mode node = .ok typed) : NodeFrame node typed := by
  cases mode with
  | field =>
    rw [renameTypes] at ht
    split at ht
    · next hresult =>
      obtain ⟨t, -, ht⟩ := except_bind_eq_ok.1 ht
      cases ht
      exact h.frame_setResult hresult _
    · cases ht
      exact .same node
  | method =>
    rw [renameTypes] at ht
    obtain ⟨desc, -, ht⟩ := except_bind_eq_ok.1 ht
    obtain ⟨⟨arguments, result⟩, -, ht⟩ := except_bind_eq_ok.1 ht
    have hmiddle : NodeFrame node
        (if d.result.isSome = true then node.set "ret" (.type ⟨result⟩) else node) := by
      split
      · next hresult => exact h.frame_setResult hresult _
      · exact .same node
    have hfrom := h.of_frame hmiddle
    rw [← Except.ok.inj ht]
    generalize (if d.result.isSome = true then node.set "ret" (.type ⟨result⟩) else node) = middle
      at hmiddle hfrom ⊢
    split
    · next hargs => exact hmiddle.trans (hfrom.frame_setArguments hargs arguments)
    · exact hmiddle

end ReadFrom

end DescReference

namespace Remapper

variable (r : Remapper) (location : String)

/-- A @Desc keeps its form, also when its types turn out to be malformed. -/
theorem remapDesc_frame (t : TargetSet) (mode : DescMode) (node : Annotation) :
    NodeFrame node (r.remapDesc location t mode node).value := by
  rw [remapDesc]
  refine Edit.rel_given (.same node) fun d hread => Edit.rel_given (.same node) fun name _ => ?_
  have hfrom := DescReference.readFrom_of_read hread
  have hname := hfrom.frame_setName name
  have hnamed := hfrom.of_frame hname
  dsimp only
  split
  · exact hname
  · next typed ht =>
    have htyped := hnamed.frame_renameTypes ht
    have hlast := (hnamed.of_frame htyped).frame_renameOwner r.naming
    exact (hname.trans htyped).trans hlast

theorem remapSelectorValue_frame (t : TargetSet) (filter : DescriptorFilter)
    (v : AnnotationValue) : ValueFrame v (r.remapSelectorValue location t filter v).value := by
  cases v with
  | string text => exact Edit.rel_given (.same _) fun renamed _ => .string text renamed
  | nested node => exact .nested (r.remapDesc_frame location t .method node)
  | _ => exact .same _

theorem remapSelectorList_frame (t : TargetSet) (filter : DescriptorFilter)
    (v : AnnotationValue) : ValueFrame v (r.remapSelectorList location t filter v).value := by
  refine ValueFrame.withItems (Edit.forall₂_eachIndexed .same (fun i item => ?_) v.items)
  exact r.remapSelectorValue_frame _ t filter item

end Remapper

end MixinNaming
