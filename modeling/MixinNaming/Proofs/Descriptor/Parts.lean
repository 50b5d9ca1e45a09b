import MixinNaming.Proofs.Desc.Owners
/-! A method descriptor and its parts. Cutting it apart and putting the parts together undo each
other, and to rename the classes of the descriptor is to rename those of each part. -/
namespace MixinNaming

namespace Descriptor

def IsField (s : String) : Prop := validate s = .ok () ∧ isMethod s = false

instance (s : String) : Decidable (IsField s) := inferInstanceAs (Decidable (_ ∧ _))

def IsResult (s : String) : Prop := s = "V" ∨ IsField s

instance (s : String) : Decidable (IsResult s) := inferInstanceAs (Decidable (_ ∨ _))

theorem isField_iff {s : String} : IsField s ↔ SpellsType s := by
  rw [IsField, validate_eq_ok_iff, SpellsType]
  constructor
  · rintro ⟨⟨t, ht, rfl⟩, hfield⟩
    cases t with
    | field u => exact ⟨u, legal_field.1 ht, rfl⟩
    | method m =>
      rw [(isMethod_render ht).2 ⟨m, rfl⟩] at hfield
      cases hfield
  · rintro ⟨u, hu, rfl⟩
    have hlegal := legal_field.2 hu
    refine ⟨⟨field u, hlegal, rfl⟩, Bool.eq_false_iff.2 fun hmethod => ?_⟩
    obtain ⟨m, hm⟩ := (isMethod_render hlegal).1 hmethod
    cases hm

theorem isResult_renderResult {m : MethodType} (h : ∀ t ∈ m.result, t.Legal) :
    IsResult m.renderResult := by
  obtain ⟨arguments, result⟩ := m
  cases result with
  | none => exact .inl rfl
  | some t => exact .inr (isField_iff.2 ⟨t, h t rfl, rfl⟩)

theorem exists_result_of_isResult {s : String} (h : IsResult s) :
    ∃ result : Option FieldType, (∀ t ∈ result, t.Legal) ∧ s = .ofList (resultChars result) := by
  have hstated : ∀ ret ∈ some s, ret = "V" ∨ SpellsType ret := by
    intro ret hret
    obtain rfl := Option.some.inj hret
    exact h.imp_right isField_iff.1
  exact Remapper.exists_result hstated

section Parts

variable {d result : String} {arguments : List String}

theorem isField_of_split (h : split d = .ok (arguments, result)) :
    (∀ a ∈ arguments, IsField a) ∧ IsResult result := by
  obtain ⟨m, hlegal, -, rfl, rfl⟩ := split_eq_ok_iff.1 h
  obtain ⟨harguments, hresult⟩ := MethodType.forall_types.1 hlegal
  refine ⟨List.forall_mem_map.2 fun t ht => ?_, isResult_renderResult hresult⟩
  exact isField_iff.2 ⟨t, harguments t ht, rfl⟩

theorem split_build (harguments : ∀ a ∈ arguments, IsField a) (hresult : IsResult result) :
    split (build arguments result) = .ok (arguments, result) := by
  obtain ⟨types, htypes, rfl⟩ :=
    exists_types_of_spellsType fun a ha => isField_iff.1 (harguments a ha)
  obtain ⟨last, hlast, rfl⟩ := exists_result_of_isResult hresult
  have hlegal : ∀ t ∈ (MethodType.mk types last).types, t.Legal :=
    MethodType.forall_types.2 ⟨htypes, hlast⟩
  have hsplit := split_render hlegal
  have hbuild := build_of_split hsplit
  rw [← hbuild] at hsplit
  exact hsplit

end Parts

end Descriptor

namespace Naming

variable {n : Naming}

/-- Each argument is renamed by itself and so is the result, except that void stays void. -/
structure RenamesParts (n : Naming) (arguments : List String) (result : String)
    (renamed : List String) (out : String) : Prop where
  arguments : List.Forall₂ (fun a b => n.signature a = .ok b) arguments renamed
  result : result = "V" ∧ out = "V" ∨ Descriptor.IsField result ∧ n.signature result = .ok out

theorem renamesParts_render {m : MethodType} (h : ∀ t ∈ m.types, t.Legal) :
    n.RenamesParts (m.arguments.map FieldType.render) m.renderResult
      ((m.mapNames n.className).arguments.map FieldType.render)
      (m.mapNames n.className).renderResult := by
  obtain ⟨harguments, hresult⟩ := MethodType.forall_types.1 h
  constructor
  · rw [List.forall₂_map_left_iff]
    exact forall₂_signature harguments
  · rcases signature_renderResult hresult with hvoid | ⟨hspells, hsignature⟩
    · exact .inl hvoid
    · exact .inr ⟨Descriptor.isField_iff.2 hspells, hsignature⟩

/-- A method that can be cut apart can be renamed, and it then comes apart into the renamed
parts. -/
theorem LegalImages.split_signature (h : n.LegalImages) {d result : String}
    {arguments : List String} (hsplit : Descriptor.split d = .ok (arguments, result)) :
    ∃ desc renamed out, n.signature d = .ok desc ∧ Descriptor.split desc = .ok (renamed, out) ∧
      n.RenamesParts arguments result renamed out := by
  obtain ⟨m, hlegal, rfl, rfl, rfl⟩ := Descriptor.split_eq_ok_iff.1 hsplit
  have hmethod : (Descriptor.method m).Legal := hlegal
  have hrenamed : ∀ t ∈ (m.mapNames n.className).types, t.Legal :=
    Descriptor.legal_mapNames.2 (h.classNames hlegal)
  exact ⟨_, _, _, Descriptor.mapClassNames_render hmethod n.className,
    Descriptor.split_render hrenamed, renamesParts_render hlegal⟩

end Naming

namespace Descriptor

/-- Checking a method and cutting it apart agree. What it is cut into are field descriptors and a
result, which make it up again and which are renamed one by one where it is renamed; and field
descriptors and a result make up a method that is cut into nothing else. -/
theorem splitting_inverts_building :
    (∀ d, isMethod d = true →
      (split d).map (fun _ => ()) = validate d ∧
      ∀ arguments result, split d = .ok (arguments, result) →
        build arguments result = d ∧ (∀ a ∈ arguments, IsField a) ∧ IsResult result ∧
        ∀ n : Naming, n.LegalImages → ∃ desc renamed out,
          n.signature d = .ok desc ∧ split desc = .ok (renamed, out) ∧
            n.RenamesParts arguments result renamed out) ∧
    ∀ arguments result, (∀ a ∈ arguments, IsField a) → IsResult result →
      split (build arguments result) = .ok (arguments, result) := by
  refine ⟨fun d hd => ⟨map_split hd, fun arguments result hsplit => ?_⟩, ?_⟩
  · obtain ⟨harguments, hresult⟩ := isField_of_split hsplit
    refine ⟨build_of_split hsplit, harguments, hresult, fun n hn => ?_⟩
    exact hn.split_signature hsplit
  · intro arguments result harguments hresult
    exact split_build harguments hresult

/-- The first argument is renamed by itself, the second one and void stay as they are. -/
theorem parts_of_renamed_method :
    let n := (MappingTable.empty.withClass "a/T" "b/U").naming
    (n.LegalImages ∧ (∀ a ∈ ["[La/T;", "I"], IsField a) ∧ IsResult "V" ∧
      isMethod "([La/T;I)V" = true) ∧
    split "([La/T;I)V" = .ok (["[La/T;", "I"], "V") ∧ validate "([La/T;I)V" = .ok () ∧
      (n.signature "([La/T;I)V").bind split = .ok (["[Lb/U;", "I"], "V") := by
  intro n
  have himages : n.LegalImages :=
    Naming.legalImages_empty.withClass "a/T" (legalClassName_iff.2 (by decide +kernel))
  have harguments : ∀ a ∈ ["[La/T;", "I"], IsField a := by decide +kernel
  have hresult : IsResult "V" := .inl rfl
  have hmethod : isMethod "([La/T;I)V" = true := by decide +kernel
  have hbuild : build ["[La/T;", "I"] "V" = "([La/T;I)V" := by decide +kernel
  obtain ⟨hsplits, hbuilds⟩ := splitting_inverts_building
  have hsplit := hbuilds _ _ harguments hresult
  rw [hbuild] at hsplit
  obtain ⟨hvalidate, hparts⟩ := hsplits _ hmethod
  obtain ⟨-, -, -, hrenames⟩ := hparts _ _ hsplit
  obtain ⟨desc, renamed, out, hdesc, hcut, hrenamed, hout⟩ := hrenames n himages
  refine ⟨⟨himages, harguments, hresult, hmethod⟩, hsplit, ?_, ?_⟩
  · rw [← hvalidate, hsplit]
    rfl
  · have hfirst : n.signature "[La/T;" = .ok "[Lb/U;" := by decide +kernel
    have hsecond : n.signature "I" = .ok "I" := by decide +kernel
    have hvoid : ¬IsField "V" := by decide +kernel
    rw [hdesc]
    refine hcut.trans ?_
    obtain ⟨-, rfl⟩ := hout.resolve_right fun h => hvoid h.1
    cases hrenamed with
    | cons harray hrest =>
      cases hrest with
      | cons hint hnil =>
        cases hnil
        cases hfirst.symm.trans harray
        cases hsecond.symm.trans hint
        rfl

end Descriptor

end MixinNaming
