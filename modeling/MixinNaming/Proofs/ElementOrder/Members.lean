import MixinNaming.Proofs.Effect.Shadow
import MixinNaming.Proofs.ElementOrder.Injection
import MixinNaming.Proofs.Idempotence.Injection
import MixinNaming.Proofs.Locality.Renames
/-! The order of elements is irrelevant. A governing annotation whose elements stand in another
order, and those of the annotations inside it, is renamed to the same result in that order. A member
decides the same rename, and the same gaps are reported, if in another order. -/
namespace MixinNaming

open Annotation (names_arrange names_editElements)
open Edit (Matches)

variable {r : Remapper} {site : Site} {t : TargetSet} {node : Annotation} {ρ : Arrangement}

/-- The lead is stated once, so it does not matter where. -/
theorem shadowLead_arrange (hnames : node.names.Nodup) (ρ : Arrangement) :
    shadowLead (node.arrange ρ) = shadowLead node := by
  have harranged := (names_arrange node ρ).nodup_iff.2 hnames
  obtain ⟨i, hi⟩ := Annotation.exists_get?_arrange hnames ρ "prefix"
  rw [shadowLead, shadowLead, filterMap_string? hnames, filterMap_string? harranged, hi]
  cases node.get? "prefix" with
  | none => rfl
  | some v =>
    rw [Option.map_some, Option.bind_some, Option.bind_some, AnnotationValue.string?_arrange]

namespace Remapper

theorem remapAliases_matches (label : String) (v : AnnotationValue) (ρ : Arrangement) :
    Matches (·.arrange ρ) (r.remapAliases site label t v)
      (r.remapAliases site label t (v.arrange ρ)) := by
  rw [remapAliases, remapAliases, AnnotationValue.strings?_arrange]
  cases haliases : v.strings? with
  | none => exact .stop _ _ _ _
  | some aliases =>
    rw [AnnotationValue.fixed_of_strings? haliases ρ]
    refine .refl fun _ => ?_
    exact AnnotationValue.fixed_withStrings haliases (Edit.length_each _ aliases) ρ

theorem remapShadowElement_matches (name : String) (v : AnnotationValue) (ρ : Arrangement) :
    Matches (·.arrange ρ) (r.remapShadowElement site t name v)
      (r.remapShadowElement site t name (v.arrange ρ)) := by
  unfold remapShadowElement
  refine .ite (fun _ => ?_) fun _ => ?_
  · cases v with
    | string s => exact .keep rfl
    | _ => exact .stop _ _ _ _
  · exact .ite (fun _ => remapAliases_matches _ v ρ) fun _ => .check (.refl _) rfl

theorem remapOverwriteElement_matches (name : String) (v : AnnotationValue) (ρ : Arrangement) :
    Matches (·.arrange ρ) (r.remapOverwriteElement site t name v)
      (r.remapOverwriteElement site t name (v.arrange ρ)) := by
  rw [remapOverwriteElement, remapOverwriteElement]
  refine .ite (fun _ => remapAliases_matches _ v ρ) fun _ => ?_
  exact .ite (fun _ => .keep rfl) fun _ => .check (.refl _) rfl

/-- The lead is read from the edited elements, among which it stands where it stood. -/
theorem remapShadow_matches (hnames : node.names.Nodup) (ρ : Arrangement) :
    Matches (·.arrange ρ) (r.remapShadow site t node) (r.remapShadow site t (node.arrange ρ)) := by
  refine .andThen ?_ fun _ => ?_
  · exact .editElements node fun i e _ => remapShadowElement_matches e.1 e.2 (ρ.inside i)
  · have hedited : (node.editElements (r.remapShadowElement site t)).value.names.Nodup := by
      rwa [names_editElements]
    rw [shadowLead_arrange hedited]
    exact .check (.refl _) rfl

theorem remapOverwrite_matches (node : Annotation) (ρ : Arrangement) :
    Matches (·.arrange ρ) (r.remapOverwrite site t node)
      (r.remapOverwrite site t (node.arrange ρ)) := by
  refine .andThen ?_ fun _ => .check (.refl _) rfl
  exact .editElements node fun i e _ => remapOverwriteElement_matches e.1 e.2 (ρ.inside i)

theorem remapUnique_matches (node : Annotation) (ρ : Arrangement) :
    Matches (·.arrange ρ) (r.remapUnique site node) (r.remapUnique site (node.arrange ρ)) :=
  .check (reportNames_matches _ _ node ρ) rfl

section Governing

variable (hnode : node.Distinct) (hρ : ρ.Concerns node) (kind : AnnotationKind)
include hnode

theorem remapGoverningField_matches :
    Matches (·.arrange ρ) (r.remapGoverningField site t kind node)
      (r.remapGoverningField site t kind (node.arrange ρ)) := by
  cases kind with
  | shadow => exact remapShadow_matches hnode.names ρ
  | unique => exact remapUnique_matches node ρ
  | _ => exact .keep rfl

include hρ

theorem remapGoverningMethod_matches :
    Matches (·.arrange ρ) (r.remapGoverningMethod site t kind node)
      (r.remapGoverningMethod site t kind (node.arrange ρ)) := by
  cases kind with
  | shadow => exact remapShadow_matches hnode.names ρ
  | unique => exact remapUnique_matches node ρ
  | overwrite => exact remapOverwrite_matches node ρ
  | injector kind => exact kind.rules.remap_matches r _ ⟨hρ, hnode.inside⟩
  | _ => exact .keep rfl

end Governing

end Remapper

/-- The second run succeeds if the first does. Then its result is the arranged one, the same renames
are decided, and the same gaps are reported in some order. -/
structure Edit.Rearranges (ρ : Arrangement) (x y : Edit Annotation) : Prop where
  succeeds : y.fault = none ↔ x.fault = none
  result : x.fault = none → y.value = x.value.arrange ρ
  renames : x.fault = none → Event.renames y.events = Event.renames x.events
  gaps : x.fault = none → (Event.gaps y.events).Perm (Event.gaps x.events)

/-- A member has one rename at most, so nothing is left of the order in which things happen. -/
theorem Edit.Matches.rearranges {m : MemberRef} {x y : Edit Annotation}
    (h : Matches (·.arrange ρ) x y) (hx : x.RenamesLast m) : x.Rearranges ρ y where
  succeeds := h.completes
  result := h.value
  gaps hfault := (h.events hfault).filterMap Event.gap?
  renames hfault := by
    have hperm : (Event.renames y.events).Perm (Event.renames x.events) :=
      (h.events hfault).filterMap Event.rename?
    rcases hx with hsilent | ⟨-, newName, hrenames⟩
    · have hnone : Event.renames x.events = [] := hsilent
      rw [hnone] at hperm ⊢
      exact hperm.eq_nil
    · rw [hrenames] at hperm ⊢
      exact hperm.eq_singleton

/-- The order in which the elements of a governing annotation stand, and those of the annotations
inside it, does not matter. What a run appends stays behind the others. -/
theorem element_order_is_irrelevant (r : Remapper) (site : Site) (t : TargetSet)
    (kind : AnnotationKind) {node : Annotation} (hnode : node.Distinct) {ρ : Arrangement}
    (hρ : ρ.Concerns node) :
    (r.remapGoverningMethod site t kind node).Rearranges ρ
        (r.remapGoverningMethod site t kind (node.arrange ρ)) ∧
      (r.remapGoverningField site t kind node).Rearranges ρ
        (r.remapGoverningField site t kind (node.arrange ρ)) := by
  constructor
  · exact (Remapper.remapGoverningMethod_matches hnode hρ kind).rearranges
      (r.remapGoverningMethod_renamesLast site t kind node)
  · exact (Remapper.remapGoverningField_matches hnode kind).rearranges
      (r.remapGoverningField_renamesLast site t kind node)

/-- A @Redirect with its two elements and those of its @At swapped, and a @CanonicalOverwrite with
two elements that nobody knows, behind which its target comes last. -/
theorem swapped_elements_of_redirect_and_overwrite :
    let table := (MappingTable.empty.withClass "a/T" "b/U").withMember
      ⟨⟨"a/T", "run", "()V"⟩, "go"⟩
    let r : Remapper := ⟨table.naming, .empty, .lenient⟩
    let run (kind : InjectorKind) := r.remapGoverningMethod ⟨⟨"m/M", "run", "()V"⟩, []⟩
      (.ofList ["a/T"]) (.injector kind)
    let ρ : Arrangement := fun place =>
      if place = [] ∨ place = [0] then ⟨2, Equiv.swap 0 1⟩ else ⟨0, .refl _⟩
    let redirect : Annotation := ⟨Vocabulary.redirect,
      [("at", .nested ⟨Vocabulary.atType,
        [("value", .string "INVOKE"), ("target", .string "La/T;run()V")]⟩),
       ("method", .string "La/T;run()V")]⟩
    let overwrite : Annotation := ⟨Vocabulary.canonicalOverwrite,
      [("since", .string "1"), ("note", .string "kept")]⟩
    let d := run .redirect (redirect.arrange ρ)
    let e := run .canonicalOverwrite (overwrite.arrange ρ)
    d.fault = none ∧ d.value.names = ["method", "at"] ∧
      (d.value.get? "method").bind AnnotationValue.string? = some "Lb/U;go()V" ∧
      ((d.value.get? "at").bind AnnotationValue.nested?).map Annotation.names =
        some ["target", "value"] ∧
      e.fault = none ∧ e.value.names = ["note", "since", "target"] ∧
      (Event.gaps e.events).map Gap.feature = ["note", "since"].map fun element =>
        .handlerElement Vocabulary.canonicalOverwrite element "method m/M.run()V" := by
  intro table r run ρ redirect overwrite d e
  have hredirect : redirect.Distinct := by
    constructor
    · decide
    · simp [redirect, Annotation.names]
  have hoverwrite : overwrite.Distinct := by
    constructor
    · decide
    · simp [overwrite]
  have hρ : ∀ node : Annotation, node.elements.length = 2 → ρ.Concerns node := by
    intro node hlength
    constructor
    · rw [hlength]
      decide
    · intro i place hi
      have hne : i ≠ 0 := by omega
      simp [ρ, hne]
  have hd := (element_order_is_irrelevant r ⟨⟨"m/M", "run", "()V"⟩, []⟩ (.ofList ["a/T"])
    (.injector .redirect) hredirect (hρ redirect rfl)).1
  have he := (element_order_is_irrelevant r ⟨⟨"m/M", "run", "()V"⟩, []⟩ (.ofList ["a/T"])
    (.injector .canonicalOverwrite) hoverwrite (hρ overwrite rfl)).1
  have hrun : (run .redirect redirect).fault = none := by decide +kernel
  have hrun' : (run .canonicalOverwrite overwrite).fault = none := by decide +kernel
  refine ⟨hd.succeeds.2 hrun, ?_, ?_, ?_, he.succeeds.2 hrun', ?_, ?_⟩
  · rw [hd.result hrun]
    decide +kernel
  · rw [hd.result hrun]
    decide +kernel
  · rw [hd.result hrun]
    decide +kernel
  · rw [he.result hrun']
    decide +kernel
  · decide +kernel

end MixinNaming
