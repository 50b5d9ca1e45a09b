import MixinNaming.Proofs.Coupling.Injection
import MixinNaming.Proofs.Effect.Basic
import MixinNaming.Proofs.Idempotence.References
/-! The argument types of a @Desc. A run joins the literals, renames the classes in the text and
cuts it into types again. Literals that are types each by itself come back one by one; all the run
makes sure of is that together they make up some sequence of types. -/
namespace MixinNaming

open Annotation (contains_eq_isSome get?_set_of_ne get?_set_self)

/-- The literals make up these types, one after the other. -/
structure SpelledBy (types : List FieldType) (literals : List String) : Prop where
  legal : ∀ u ∈ types, u.Legal
  chars : types.flatMap FieldType.chars = literals.flatMap String.toList

def SpellsType (literal : String) : Prop := ∃ u : FieldType, u.Legal ∧ u.render = literal

theorem spellsType_iff_parse {literal : String} :
    SpellsType literal ↔ ∃ u, Descriptor.parse literal = .ok (.field u) := by
  refine exists_congr fun u => ?_
  rw [Descriptor.parse_eq_ok_iff, Descriptor.legal_field]
  exact Iff.rfl

/-- A text is cut into types in one way at most. -/
theorem flatMap_chars_inj {types others : List FieldType} (h : ∀ u ∈ types, u.Legal)
    (hothers : ∀ u ∈ others, u.Legal)
    (heq : types.flatMap FieldType.chars = others.flatMap FieldType.chars) : types = others := by
  have hread := readArguments_append h []
  rw [heq, readArguments_append hothers []] at hread
  exact (Prod.mk.inj hread).1.symm

theorem exists_types_of_spellsType {literals : List String}
    (h : ∀ literal ∈ literals, SpellsType literal) :
    ∃ types : List FieldType, (∀ u ∈ types, u.Legal) ∧ types.map FieldType.render = literals := by
  induction literals with
  | nil => exact ⟨[], nofun, rfl⟩
  | cons literal rest ih =>
    rw [List.forall_mem_cons] at h
    obtain ⟨u, hu, rfl⟩ := h.1
    obtain ⟨types, htypes, rfl⟩ := ih h.2
    exact ⟨u :: types, List.forall_mem_cons.2 ⟨hu, htypes⟩, rfl⟩

/-- Literals that are types each by itself make up these types and no others. -/
theorem SpelledBy.map_render {types : List FieldType} {literals : List String}
    (h : SpelledBy types literals) (hone : ∀ literal ∈ literals, SpellsType literal) :
    types.map FieldType.render = literals := by
  obtain ⟨others, hothers, rfl⟩ := exists_types_of_spellsType hone
  have hchars := h.chars
  simp only [List.flatMap_map, FieldType.render, String.toList_ofList] at hchars
  rw [flatMap_chars_inj h.legal hothers hchars]

namespace Naming

variable {n : Naming}

def LegalImages (n : Naming) : Prop :=
  ∀ c renamed, n.class? c = some renamed → LegalClassName renamed

theorem LegalImages.className (h : n.LegalImages) {c : String} (hc : LegalClassName c) :
    LegalClassName (n.className c) := by
  rw [Naming.className]
  cases hrenamed : n.class? c with
  | none => exact hc
  | some renamed => exact h c renamed hrenamed

theorem LegalImages.classNames (h : n.LegalImages) {m : MethodType}
    (hlegal : ∀ u ∈ m.types, u.Legal) :
    ∀ c ∈ (Descriptor.method m).classNames, LegalClassName (n.className c) := by
  intro c hc
  have hmethod : (Descriptor.method m).Legal := hlegal
  exact h.className (Descriptor.legal_iff.1 hmethod c hc)

theorem signature_fieldType {u : FieldType} (h : u.Legal) :
    n.signature u.render = .ok (u.mapNames n.className).render := by
  exact Descriptor.mapClassNames_render (Descriptor.legal_field.2 h) n.className

theorem forall₂_signature {types : List FieldType} (h : ∀ u ∈ types, u.Legal) :
    List.Forall₂ (fun (u : FieldType) out => n.signature u.render = .ok out) types
      ((types.map (FieldType.mapNames n.className)).map FieldType.render) := by
  rw [List.map_map, List.forall₂_map_right_iff, List.forall₂_same]
  exact fun u hu => signature_fieldType (h u hu)

/-- A result is renamed like a type of its own, and void stays void. -/
theorem signature_renderResult {m : MethodType} (h : ∀ u ∈ m.result, u.Legal) :
    m.renderResult = "V" ∧ (m.mapNames n.className).renderResult = "V" ∨
      SpellsType m.renderResult ∧
        n.signature m.renderResult = .ok (m.mapNames n.className).renderResult := by
  obtain ⟨arguments, result⟩ := m
  cases result with
  | none => exact .inl ⟨rfl, rfl⟩
  | some u => exact .inr ⟨⟨u, h u rfl, rfl⟩, signature_fieldType (h u rfl)⟩

/-- A method descriptor that is renamed is that of a method with legal types. -/
theorem methodSignature_eq_ok {desc out : String} (h : n.methodSignature desc = .ok out) :
    ∃ m : MethodType, (∀ u ∈ m.types, u.Legal) ∧ (Descriptor.method m).render = desc ∧
      (Descriptor.method (m.mapNames n.className)).render = out := by
  rw [methodSignature] at h
  split at h
  · next hmethod =>
    obtain ⟨t, hlegal, rfl, rfl⟩ := Descriptor.mapClassNames_eq_ok_iff.1 h
    obtain ⟨m, rfl⟩ := (Descriptor.isMethod_render hlegal).1 hmethod
    exact ⟨m, hlegal, rfl, rfl⟩
  · cases h

end Naming

namespace DescReference

variable {r : Remapper} {location : String} {node : Annotation} {d : DescReference}

theorem literals_inj {types others : List String} (h : literals types = literals others) :
    types = others := by
  refine List.map_injective_iff.2 (fun a b hab => ?_) h
  exact ClassLiteral.mk.inj (AnnotationValue.type.inj hab)

section PutTypes

variable (arguments : List String) (result : String)

theorem get?_putTypes_args {v : AnnotationValue} (h : node.get? "args" = some v) :
    (d.putTypes arguments result node).get? "args" = some (.array (literals arguments)) := by
  rw [putTypes]
  have hcontains : (if d.result.isSome = true then node.set "ret" (.type ⟨result⟩)
      else node).contains "args" = true := by
    rw [contains_eq_isSome]
    split
    · rw [get?_set_of_ne (by decide), h]
      rfl
    · rw [h]
      rfl
  rw [if_pos hcontains]
  exact get?_set_self _ "args" _

theorem get?_putTypes_ret (h : d.result.isSome = true) :
    (d.putTypes arguments result node).get? "ret" = some (.type ⟨result⟩) := by
  rw [putTypes, if_pos h]
  split
  · rw [get?_set_of_ne (by decide), get?_set_self]
  · exact get?_set_self _ "ret" _

theorem get?_renameOwner {n : Naming} {name : String} (h : name ≠ "owner") :
    (d.renameOwner n node).get? name = node.get? name := by
  rw [renameOwner]
  split
  · exact get?_set_of_ne h _
  · rfl

end PutTypes

section Faults

variable {f : Fault}

def RefusesElement (p : Policy) (location : String) (node : Annotation) (f : Fault) : Prop :=
  ∃ name ∈ node.names, isKnownElement name = false ∧
    p.refusal ⟨location, .descElement name⟩ = some f

theorem reportEach_error {features : List Feature}
    (h : (r.reportEach location features).result = .error f) :
    ∃ feature ∈ features, r.policy.refusal ⟨location, feature⟩ = some f := by
  induction features with
  | nil => cases h
  | cons feature rest ih =>
    rcases Attempt.bind_eq_error.1 h with hfirst | ⟨-, -, hrest⟩
    · refine ⟨feature, List.mem_cons_self, ?_⟩
      cases hrefusal : r.policy.refusal ⟨location, feature⟩ with
      | none =>
        rw [Remapper.report_of_passed hrefusal] at hfirst
        cases hfirst
      | some g =>
        rw [Remapper.report_of_refused hrefusal] at hfirst
        exact congrArg some (Except.error.inj hfirst)
    · obtain ⟨other, hother, heq⟩ := ih hrest
      exact ⟨other, List.mem_cons_of_mem feature hother, heq⟩

theorem newName_plain (r : Remapper) (location : String) (mode : DescMode) (d : DescReference)
    (t : TargetSet) : (d.newName r location mode t).Plain := by
  rw [newName]
  refine .bind ?_ fun found => ?_
  · have hvote (owner : String) : Congruence.plain.attempts
        (.answer (some (rename r.naming mode ⟨owner, d.name, d.desc⟩)))
        (.answer (some (rename r.naming mode ⟨owner, d.name, d.desc⟩))) :=
      .answer _
    exact Congruence.plain.agree hvote location _ (d.owners t)
  · cases found with
    | some name => exact .answer name
    | none => exact .refuse location _

theorem read_error (h : (read r location .method node).result = .error f) :
    f.isStructural = true ∨ RefusesElement r.policy location node f := by
  rw [read] at h
  split at h
  · exact .inl (Attempt.structural_refuse location _ f h)
  · rcases Attempt.bind_eq_error.1 h with hreport | ⟨-, -, hrest⟩
    · obtain ⟨feature, hfeature, hrefusal⟩ := reportEach_error hreport
      obtain ⟨name, hname, rfl⟩ := List.mem_map.1 hfeature
      obtain ⟨hmem, hunknown⟩ := List.mem_filter.1 hname
      exact .inr ⟨name, hmem, by simpa using hunknown, hrefusal⟩
    · refine .inl (Attempt.Plain.structural ?_ f hrest)
      refine .bind (Congruence.plain.readName location node) fun name => ?_
      refine .bind (Congruence.plain.readOwner location node) fun owner => ?_
      refine .bind (Congruence.plain.readResult location node) fun result => ?_
      refine .bind ?_ fun desc => .answer _
      exact .bind (Congruence.plain.readArguments location _) fun arguments => .answer _

/-- A method reference is stopped by a fault of the mixin itself or by an unknown element. -/
theorem remapDesc_error {t : TargetSet} (h : (r.remapDesc location t .method node).fault = some f) :
    f.isStructural = true ∨ RefusesElement r.policy location node f := by
  rcases Edit.given_fault_eq_some.1 h with hread | ⟨d, -, hrest⟩
  · exact read_error hread
  · refine .inl (Edit.Plain.structural ?_ f hrest)
    refine .given node (newName_plain r location .method d t) fun name => ?_
    dsimp only
    split
    · exact .refuse _ location _
    · exact .keep _

end Faults

end DescReference

/-- The argument literals of a method reference and what a run makes of them. -/
structure Remapper.RewritesArguments (r : Remapper) (location : String) (t : TargetSet)
    (node : Annotation) (arguments : List String) (run : Edit Annotation) : Prop where
  completes : ∀ d name types, (DescReference.read r location .method node).result = .ok d →
    (d.newName r location .method t).result = .ok name → SpelledBy types arguments →
    (∀ ret ∈ d.result, ret = "V" ∨ SpellsType ret) → run.fault = none
  together : run.fault = none → ∃ types renamed, SpelledBy types arguments ∧
    List.Forall₂ (fun (u : FieldType) out => r.naming.signature u.render = .ok out) types renamed ∧
    run.value.get? "args" = some (.array (DescReference.literals renamed))
  separate : run.fault = none → (∀ literal ∈ arguments, SpellsType literal) → ∃ renamed,
    List.Forall₂ (fun literal out => r.naming.signature literal = .ok out) arguments renamed ∧
    run.value.get? "args" = some (.array (DescReference.literals renamed))
  result : run.fault = none → ∀ ret, node.get? "ret" = some (.type ⟨ret⟩) →
    ∃ out, run.value.get? "ret" = some (.type ⟨out⟩) ∧
      (ret = "V" ∧ out = "V" ∨ SpellsType ret ∧ r.naming.signature ret = .ok out)
  refused : (¬∃ types, SpelledBy types arguments) → ∃ f, run.fault = some f ∧
    (f.isStructural = true ∨ DescReference.RefusesElement r.policy location node f)

namespace Remapper

variable {r : Remapper} {location : String} {t : TargetSet} {node : Annotation}

/-- A result is a type or void, whether it is stated or not. -/
theorem exists_result {stated : Option String}
    (h : ∀ ret ∈ stated, ret = "V" ∨ SpellsType ret) : ∃ result : Option FieldType,
      (∀ u ∈ result, u.Legal) ∧ stated.getD "V" = .ofList (resultChars result) := by
  cases stated with
  | none => exact ⟨none, nofun, rfl⟩
  | some ret =>
    rcases h ret rfl with rfl | ⟨u, hu, rfl⟩
    · exact ⟨none, nofun, rfl⟩
    · refine ⟨some u, ?_, rfl⟩
      rintro v ⟨⟩
      exact hu

/-- Nothing but the argument literals and the result can stop a reference whose name is certain. -/
theorem remapDesc_of_spelledBy {d : DescReference} {name : String} {v : AnnotationValue}
    {arguments : List String} {types : List FieldType} (himages : r.naming.LegalImages)
    (hargs : node.get? "args" = some v) (hitems : v.items = DescReference.literals arguments)
    (hread : (DescReference.read r location .method node).result = .ok d)
    (hname : (d.newName r location .method t).result = .ok name)
    (hspelled : SpelledBy types arguments)
    (hret : ∀ ret ∈ d.result, ret = "V" ∨ SpellsType ret) :
    (r.remapDesc location t .method node).fault = none := by
  have hstates := (DescReference.read_eq_ok.1 hread).2.2
  obtain ⟨result, hresult, hvoid⟩ := exists_result hret
  have hlegal : ∀ u ∈ (MethodType.mk types result).types, u.Legal :=
    MethodType.forall_types.2 ⟨hspelled.legal, hresult⟩
  obtain ⟨read, hstated, hbuild⟩ := hstates.types
  rw [DescReference.argumentItems, hargs] at hstated
  obtain rfl := DescReference.literals_inj (hitems.symm.trans hstated)
  have hrender : (Descriptor.method ⟨types, result⟩).render = d.desc := by
    rw [hbuild]
    exact ((Descriptor.build_eq_render_iff hlegal).2 ⟨hspelled.chars.symm, hvoid⟩).symm
  obtain ⟨typed, out, htypes, -⟩ :=
    (hstates.setName name).renameMethod hlegal hrender (himages.classNames hlegal)
  exact remapDesc_fault_eq_none.2 ⟨d, name, typed, hread, hname, htypes⟩

theorem exists_method_of_completed (himages : r.naming.LegalImages)
    (h : (r.remapDesc location t .method node).fault = none) :
    ∃ (d : DescReference) (m : MethodType), DescReference.States .method node d ∧
      (∀ u ∈ m.types, u.Legal) ∧ (Descriptor.method m).render = d.desc ∧
      ∃ name, (r.remapDesc location t .method node).value = d.renameOwner r.naming
        (d.putTypes ((m.mapNames r.naming.className).arguments.map FieldType.render)
          (m.mapNames r.naming.className).renderResult (node.set "value" (.string name))) := by
  obtain ⟨d, name, typed, hsteps⟩ := remapDesc_fault_eq_none.1 h
  obtain ⟨desc, hdesc, ⟨arguments, result⟩, hsplit, rfl⟩ :=
    DescReference.renameTypes_method_eq_ok.1 hsteps.types
  obtain ⟨m, hlegal, hrender, rfl⟩ := Naming.methodSignature_eq_ok hdesc
  refine ⟨d, m, (DescReference.read_eq_ok.1 hsteps.read).2.2, hlegal, hrender, name, ?_⟩
  have hmapped := Descriptor.split_render (Descriptor.legal_mapNames.2 (himages.classNames hlegal))
  cases hmapped.symm.trans hsplit
  exact hsteps.value

section Completed

variable (himages : r.naming.LegalImages)
  (hcompleted : (r.remapDesc location t .method node).fault = none)
include himages hcompleted

theorem completed_arguments {v : AnnotationValue} {arguments : List String}
    (hargs : node.get? "args" = some v) (hitems : v.items = DescReference.literals arguments) :
    ∃ types renamed, SpelledBy types arguments ∧
      List.Forall₂ (fun (u : FieldType) out => r.naming.signature u.render = .ok out)
        types renamed ∧
      (r.remapDesc location t .method node).value.get? "args" =
        some (.array (DescReference.literals renamed)) := by
  obtain ⟨d, m, hstates, hlegal, hrender, name, hvalue⟩ :=
    exists_method_of_completed himages hcompleted
  obtain ⟨read, hread, hbuild⟩ := hstates.types
  rw [DescReference.argumentItems, hargs] at hread
  obtain rfl := DescReference.literals_inj (hitems.symm.trans hread)
  have hchars := ((Descriptor.build_eq_render_iff hlegal).1 (hbuild.symm.trans hrender.symm)).1
  have harguments := (MethodType.forall_types.1 hlegal).1
  refine ⟨m.arguments, (m.mapNames r.naming.className).arguments.map FieldType.render,
    ⟨harguments, hchars.symm⟩, ?_, ?_⟩
  · exact Naming.forall₂_signature harguments
  · have hnamed : (node.set "value" (.string name)).get? "args" = some v :=
      (get?_set_of_ne (by decide) _).trans hargs
    rw [hvalue, DescReference.get?_renameOwner (by decide)]
    exact DescReference.get?_putTypes_args _ _ hnamed

theorem completed_result {ret : String} (hret : node.get? "ret" = some (.type ⟨ret⟩)) :
    ∃ out, (r.remapDesc location t .method node).value.get? "ret" = some (.type ⟨out⟩) ∧
      (ret = "V" ∧ out = "V" ∨ SpellsType ret ∧ r.naming.signature ret = .ok out) := by
  obtain ⟨d, m, hstates, hlegal, hrender, name, hvalue⟩ :=
    exists_method_of_completed himages hcompleted
  have hresult : d.result = some ret := by
    have hread := hstates.result
    rw [hret] at hread
    obtain ⟨result, hresult, hliteral⟩ := Option.map_eq_some_iff.1 hread.symm
    rw [hresult, ClassLiteral.mk.inj (AnnotationValue.type.inj hliteral)]
  have hstated := hstates.result_eq hlegal hrender
  rw [hresult, Option.getD_some] at hstated
  refine ⟨(m.mapNames r.naming.className).renderResult, ?_, ?_⟩
  · rw [hvalue, DescReference.get?_renameOwner (by decide)]
    exact DescReference.get?_putTypes_ret _ _ (by rw [hresult]; rfl)
  · rw [hstated]
    exact Naming.signature_renderResult (MethodType.forall_types.1 hlegal).2

end Completed

end Remapper

/-- The argument literals are cut anew. A run over literals that make up types completes once the
name is certain, and it states the renamed types; a run over literals that make up none does not
complete. -/
theorem desc_arguments_are_cut_anew (r : Remapper) (location : String) (t : TargetSet)
    (node : Annotation) (v : AnnotationValue) (arguments : List String)
    (himages : r.naming.LegalImages) (hargs : node.get? "args" = some v)
    (hitems : v.items = DescReference.literals arguments) :
    r.RewritesArguments location t node arguments (r.remapDesc location t .method node) where
  completes d name types := Remapper.remapDesc_of_spelledBy himages hargs hitems
  together hcompleted := Remapper.completed_arguments himages hcompleted hargs hitems
  separate hcompleted hone := by
    obtain ⟨types, renamed, hspelled, hsignatures, hvalue⟩ :=
      Remapper.completed_arguments himages hcompleted hargs hitems
    refine ⟨renamed, ?_, hvalue⟩
    rw [← hspelled.map_render hone, List.forall₂_map_left_iff]
    exact hsignatures
  result hcompleted ret hret := Remapper.completed_result himages hcompleted hret
  refused hnone := by
    cases hfault : (r.remapDesc location t .method node).fault with
    | none =>
      obtain ⟨types, -, hspelled, -⟩ :=
        Remapper.completed_arguments himages hfault hargs hitems
      exact absurd ⟨types, hspelled⟩ hnone
    | some f => exact ⟨f, rfl, DescReference.remapDesc_error hfault⟩

/-- Literals that are types each by itself are renamed one by one. -/
theorem separate_arguments_stay_apart :
    let table := MappingTable.empty.withClass "a/T" "b/U"
    let r : Remapper := ⟨table.naming, .empty, .failFast⟩
    let node : Annotation := ⟨Vocabulary.descType, [("value", .string "run"),
      ("args", .array [.type ⟨"[La/T;"⟩, .type ⟨"I"⟩]), ("ret", .type ⟨"La/T;"⟩)]⟩
    let run := r.remapDesc "" (.single "a/T") .method node
    run.fault = none ∧
      run.value.get? "args" = some (.array [.type ⟨"[Lb/U;"⟩, .type ⟨"I"⟩]) ∧
      run.value.get? "ret" = some (.type ⟨"Lb/U;"⟩) := by
  intro table r node run
  have hclass : (Descriptor.field ⟨0, .reference "b/U"⟩).Legal :=
    (Descriptor.parse_eq_ok_iff.1 (by decide +kernel : Descriptor.parse "Lb/U;" = .ok _)).1
  have himages : r.naming.LegalImages := by
    intro c renamed hc
    have hlookup := Table.get?_insert (.empty : Table String String) "a/T" c "b/U"
    rw [Table.get?_empty] at hlookup
    obtain ⟨-, heq⟩ := Option.ite_none_right_eq_some.1 (hlookup.symm.trans hc)
    rw [← Option.some.inj heq]
    exact hclass _ (List.mem_singleton_self _)
  have hrewrites := desc_arguments_are_cut_anew r "" (.single "a/T") node _ ["[La/T;", "I"]
    himages rfl rfl
  have hcompleted : run.fault = none := by decide +kernel
  have hone : ∀ literal ∈ ["[La/T;", "I"], SpellsType literal := by
    simp only [List.forall_mem_cons, spellsType_iff_parse]
    exact ⟨⟨⟨1, .reference "a/T"⟩, by decide +kernel⟩, ⟨⟨0, .primitive .int⟩, by decide +kernel⟩,
      nofun⟩
  obtain ⟨renamed, hsignatures, hargs⟩ := hrewrites.separate hcompleted hone
  obtain ⟨out, hret, hout⟩ := hrewrites.result hcompleted "La/T;" rfl
  refine ⟨hcompleted, ?_, ?_⟩
  · cases hsignatures with
    | cons harray hrest =>
      cases hrest with
      | cons hint hnil =>
        cases hnil
        have hfirst : r.naming.signature "[La/T;" = .ok "[Lb/U;" := by decide +kernel
        have hsecond : r.naming.signature "I" = .ok "I" := by decide +kernel
        cases hfirst.symm.trans harray
        cases hsecond.symm.trans hint
        exact hargs
  · rcases hout with ⟨hvoid, -⟩ | ⟨-, hsignature⟩
    · exact absurd hvoid (by decide)
    · have hrenamed : r.naming.signature "La/T;" = .ok "Lb/U;" := by decide +kernel
      cases hrenamed.symm.trans hsignature
      exact hret

/-- A literal that is no type comes apart into two that are. -/
theorem fused_arguments_come_apart :
    let r : Remapper := ⟨MappingTable.empty.naming, .empty, .failFast⟩
    let node : Annotation := ⟨Vocabulary.descType, [("value", .string "run"),
      ("args", .array [.type ⟨"II"⟩])]⟩
    let run := r.remapDesc "" (.single "a/T") .method node
    r.naming.LegalImages ∧ ¬SpellsType "II" ∧ run.fault = none ∧
      (DescReference.argumentItems run.value).map AnnotationValue.type? =
        [some ⟨"I"⟩, some ⟨"I"⟩] := by
  refine ⟨fun c renamed hc => ?_, ?_, by decide +kernel, by decide +kernel⟩
  · have hlookup : (Table.empty : Table String String).get? c = none := Table.get?_empty c
    cases hlookup.symm.trans hc
  · rw [spellsType_iff_parse]
    rintro ⟨u, hu⟩
    have herror : Descriptor.parse "II" = .error (.trailing "II" 1) := by decide +kernel
    cases herror.symm.trans hu

end MixinNaming
