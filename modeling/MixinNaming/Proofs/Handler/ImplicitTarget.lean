import MixinNaming.Proofs.Desc.Owners
import MixinNaming.Proofs.Handler.Callback
import MixinNaming.Proofs.Idempotence.Injection
/-! The target that a @CanonicalOverwrite stands for when it names none: the method that its handler
is. A run writes down the @Desc of the handler and renames it like one that has been written by
hand, so that every argument and the result are told apart again after they have been renamed. -/
namespace MixinNaming

open DescReference (Assembles)

namespace CanonicalOverwrite

def bare : Annotation := ⟨Vocabulary.canonicalOverwrite, []⟩

def targeting (node : Annotation) : Annotation :=
  ⟨Vocabulary.canonicalOverwrite, [("target", .nested node)]⟩

def methodDesc (name : String) (arguments : List String) (result : String) : Annotation :=
  ⟨Vocabulary.descType, [("value", .string name),
    ("args", .array (DescReference.literals arguments)), ("ret", .type ⟨result⟩)]⟩

def run (r : Remapper) (h : Handler) (node : Annotation) : Edit Annotation :=
  InjectorKind.canonicalOverwrite.rules.remap r h node

variable {r : Remapper} {h : Handler} {m : MethodType} {node : Annotation}

section Hooks

theorem run_eq (r : Remapper) (h : Handler) (node : Annotation) : run r h node =
    (Hook.implicitTarget.apply h node).andThen fun node =>
      node.editElements (InjectorKind.canonicalOverwrite.rules.remapElement r h node.desc) := by
  have hhooks : RuleSet.applyHooks h InjectorKind.canonicalOverwrite.rules.hooks node =
      Hook.implicitTarget.apply h node := Edit.andThen_keep _
  rw [run, RuleSet.remap, hhooks]

/-- Beside an element that names a target nothing is added. -/
theorem run_of_named (hnode : "method" ∈ node.names ∨ "target" ∈ node.names) : run r h node =
    node.editElements (InjectorKind.canonicalOverwrite.rules.remapElement r h node.desc) := by
  have hnamed : (node.contains "method" || node.contains "target") = true := by
    rwa [Bool.or_eq_true, Annotation.contains_eq_true, Annotation.contains_eq_true]
  rw [run_eq, Hook.apply, if_pos hnamed]
  rfl

/-- The one element of the annotation is renamed like any reference to a method. -/
theorem run_targeting (r : Remapper) (h : Handler) (node : Annotation) :
    run r h (targeting node) = (r.remapDesc
      (Remapper.selectorLocation h.location 0 (.nested node)) h.targets .method node).map
        targeting := by
  have hlist : r.remapSelectorList h.location h.targets .methodOnly (.nested node) =
      (r.remapDesc (Remapper.selectorLocation h.location 0 (.nested node)) h.targets .method
        node).map .nested := by
    rw [Remapper.remapSelectorList, AnnotationValue.items, Edit.eachIndexed_singleton]
    · rfl
    · rintro items ⟨⟩
  rw [run_of_named (.inr (List.mem_singleton_self _)), Annotation.editElements, targeting,
    Edit.each_singleton]
  have helement : InjectorKind.canonicalOverwrite.rules.remapElement r h
      Vocabulary.canonicalOverwrite "target" (.nested node) =
        r.remapSelectorList h.location h.targets .methodOnly (.nested node) := rfl
  dsimp only
  rw [helement, hlist]
  rfl

/-- The annotation without an element is treated as if the handler were named in it. -/
theorem run_bare (hm : Descriptor.parse h.desc = .ok (.method m)) :
    run r h bare = run r h (targeting
      (methodDesc h.name (m.arguments.map FieldType.render) m.renderResult)) := by
  obtain ⟨hlegal, hrender⟩ := parse_eq_ok_method_iff.1 hm
  have hsplit := Descriptor.split_render hlegal
  rw [hrender] at hsplit
  have happly : Hook.implicitTarget.apply h bare = .keep (targeting
      (methodDesc h.name (m.arguments.map FieldType.render) m.renderResult)) := by
    have hparts : h.fromDesc Descriptor.split =
        .answer (m.arguments.map FieldType.render, m.renderResult) := by
      rw [Handler.fromDesc, hsplit]
      rfl
    rw [Hook.apply, hparts]
    rfl
  rw [run_eq, happly, run_of_named (.inr (List.mem_singleton_self _))]
  rfl

/-- A handler that is not described as a method is no target. -/
theorem run_bare_of_malformed (hnone : ∀ m, Descriptor.parse h.desc ≠ .ok (.method m)) :
    ∃ location v, run r h bare = .stop bare (.illegal location v) := by
  cases hsplit : Descriptor.split h.desc with
  | ok parts =>
    obtain ⟨m, hlegal, hrender, -⟩ := Descriptor.split_eq_ok_iff.1 hsplit
    exact absurd (parse_eq_ok_method_iff.2 ⟨hlegal, hrender⟩) (hnone m)
  | error e =>
    refine ⟨"Malformed handler descriptor of " ++ h.location ++ ": ", .descriptor e, ?_⟩
    rw [run_eq, Hook.apply, Handler.fromDesc, hsplit]
    rfl

end Hooks

section Naming

/-- The @Desc of a handler states the handler. -/
theorem assembles_methodDesc (hm : Descriptor.parse h.desc = .ok (.method m)) :
    Assembles .method (methodDesc h.name (m.arguments.map FieldType.render) m.renderResult)
      ⟨h.name, none, some m.renderResult, h.desc⟩ := by
  obtain ⟨hlegal, hrender⟩ := parse_eq_ok_method_iff.1 hm
  have hsplit := Descriptor.split_render hlegal
  rw [hrender] at hsplit
  have hknown : ∀ name ∈ ["value", "args", "ret"], DescReference.isKnownElement name = true := by
    decide
  exact {
    desc := rfl
    name := rfl
    owner := rfl
    named := nofun
    result := rfl
    types := ⟨_, rfl, (Descriptor.build_of_split hsplit).symm⟩
    known := hknown
    valid := Descriptor.validate_eq_ok_iff.2 ⟨.method m, hlegal, hrender⟩
    typed := nofun
    field := nofun }

theorem putTypes_methodDesc (old name desc : String) (arguments types : List String)
    (result type : String) : (DescReference.mk old none (some result) desc).putTypes types type
      ((methodDesc old arguments result).set "value" (.string name)) =
        methodDesc name types type := by
  simp [DescReference.putTypes, methodDesc, Annotation.set, Annotation.setElement,
    Annotation.contains]

/-- Targets that agree on a name give it to the @Desc, and its types are renamed one by one. -/
theorem remapDesc_methodDesc (himages : r.naming.LegalImages)
    (hm : Descriptor.parse h.desc = .ok (.method m)) {name : String}
    (hne : h.targets.classes ≠ [])
    (hall : ∀ c ∈ h.targets.classes, r.naming.method ⟨c, h.name, h.desc⟩ = name)
    (location : String) :
    ∃ arguments result, r.remapDesc location h.targets .method
        (methodDesc h.name (m.arguments.map FieldType.render) m.renderResult) =
          .keep (methodDesc name arguments result) ∧
      arguments.length = m.arguments.length ∧
      r.naming.signature h.desc = .ok (Descriptor.build arguments result) := by
  obtain ⟨hlegal, hrender⟩ := parse_eq_ok_method_iff.1 hm
  let renamed := m.mapNames r.naming.className
  have hsplit : Descriptor.split (Descriptor.method renamed).render =
      .ok (renamed.arguments.map FieldType.render, renamed.renderResult) :=
    Descriptor.split_render (Descriptor.legal_mapNames.2 (himages.classNames hlegal))
  have hsignature : r.naming.signature h.desc = .ok (Descriptor.method renamed).render := by
    rw [← hrender]
    exact Descriptor.mapClassNames_render (t := .method m) hlegal r.naming.className
  have hmethod : Descriptor.isMethod h.desc = true := by
    rw [← hrender]
    exact (Descriptor.isMethod_render (t := .method m) hlegal).2 ⟨m, rfl⟩
  refine ⟨renamed.arguments.map FieldType.render, renamed.renderResult, ?_, ?_, ?_⟩
  · let d : DescReference := ⟨h.name, none, some m.renderResult, h.desc⟩
    have hname : d.newName r location .method h.targets = .answer name :=
      DescReference.newName_of_unanimous ⟨hne, hall⟩
    have hmethodSignature : r.naming.methodSignature d.desc =
        .ok (Descriptor.method renamed).render := by
      rw [Naming.methodSignature, if_pos hmethod]
      exact hsignature
    have htypes := DescReference.renameTypes_method_eq_ok.2 ⟨_, hmethodSignature, _, hsplit,
      putTypes_methodDesc h.name name h.desc (m.arguments.map FieldType.render) _ _ _⟩
    rw [Remapper.remapDesc_of_read (assembles_methodDesc hm).read, hname, Edit.given]
    dsimp only [Attempt.answer]
    rw [htypes]
    rfl
  · rw [List.length_map]
    exact List.length_map _
  · rw [Descriptor.build_of_split hsplit]
    exact hsignature

end Naming

end CanonicalOverwrite

open CanonicalOverwrite (bare run targeting methodDesc)

structure Remapper.NamesHandler (r : Remapper) (h : Handler) : Prop where
  /-- Targets that agree on a name: the annotation names the handler, renamed. -/
  agreed : ∀ m name, Descriptor.parse h.desc = .ok (.method m) → h.targets.classes ≠ [] →
    (∀ c ∈ h.targets.classes, r.naming.method ⟨c, h.name, h.desc⟩ = name) →
      ∃ arguments result, run r h bare = .keep (targeting (methodDesc name arguments result)) ∧
        arguments.length = m.arguments.length ∧
        r.naming.signature h.desc = .ok (Descriptor.build arguments result)
  /-- It makes no difference whether the handler is named. -/
  explicit : ∀ m, Descriptor.parse h.desc = .ok (.method m) → run r h bare = run r h (targeting
    (methodDesc h.name (m.arguments.map FieldType.render) m.renderResult))
  torn : ∀ m, Descriptor.parse h.desc = .ok (.method m) →
    ∀ c ∈ h.targets.classes, ∀ c' ∈ h.targets.classes,
      r.naming.method ⟨c, h.name, h.desc⟩ ≠ r.naming.method ⟨c', h.name, h.desc⟩ →
        ∃ location v, (run r h bare).fault = some (.illegal location v)
  malformed : (∀ m, Descriptor.parse h.desc ≠ .ok (.method m)) →
    ∃ location v, run r h bare = .stop bare (.illegal location v)
  /-- An annotation that names a target is not given another one. -/
  named : ∀ node, "method" ∈ node.names ∨ "target" ∈ node.names →
    (run r h node).value.names = node.names

/-- A @CanonicalOverwrite without an element stands for the method that its handler is. -/
theorem canonical_overwrite_names_its_handler (r : Remapper) (h : Handler)
    (himages : r.naming.LegalImages) : r.NamesHandler h where
  agreed m name hm hne hall := by
    obtain ⟨arguments, result, hrun, hlength, hdesc⟩ :=
      CanonicalOverwrite.remapDesc_methodDesc himages hm hne hall _
    refine ⟨arguments, result, ?_, hlength, hdesc⟩
    rw [CanonicalOverwrite.run_bare hm, CanonicalOverwrite.run_targeting, hrun]
    rfl
  explicit m hm := CanonicalOverwrite.run_bare hm
  torn m hm c hc c' hc' hne := by
    obtain ⟨first, second, -, hstop⟩ := Remapper.remapDesc_of_torn rfl
      (CanonicalOverwrite.assembles_methodDesc hm) hc hc' hne
    rw [CanonicalOverwrite.run_bare hm, CanonicalOverwrite.run_targeting, hstop]
    exact ⟨_, _, rfl⟩
  malformed := CanonicalOverwrite.run_bare_of_malformed
  named node hnode := by
    rw [CanonicalOverwrite.run_of_named hnode]
    exact Annotation.names_editElements _ node

/-- Both targets call the handler `go`, and its two arguments come out as two. A third target has
another name for it, and a handler that is described like a field is refused. -/
theorem overwrite_of_handler_with_array_argument :
    let table := ((MappingTable.empty.withClass "a/T" "b/U").withMember
      ⟨⟨"a/T", "run", "([La/T;I)V"⟩, "go"⟩).withMember ⟨⟨"a/S", "run", "([La/T;I)V"⟩, "go"⟩
    let r : Remapper := ⟨table.naming, .empty, .failFast⟩
    let handler (desc : String) (targets : List String) : Handler :=
      ⟨"m/M", "run", desc, .ofList targets⟩
    (∃ arguments result, run r (handler "([La/T;I)V" ["a/T", "a/S"]) bare =
        .keep (targeting (methodDesc "go" arguments result)) ∧
      arguments.length = 2 ∧ Descriptor.build arguments result = "([Lb/U;I)V") ∧
    (∃ location v, (run r (handler "([La/T;I)V" ["a/T", "a/R"]) bare).fault =
      some (.illegal location v)) ∧
    ∃ location v, run r (handler "I" ["a/T"]) bare = .stop bare (.illegal location v) := by
  intro table r handler
  have himages : r.naming.LegalImages :=
    Naming.legalImages_empty.withClass "a/T" (legalClassName_iff.2 (by decide +kernel))
  let m : MethodType := ⟨[⟨1, .reference "a/T"⟩, ⟨0, .primitive .int⟩], none⟩
  have hm : Descriptor.parse "([La/T;I)V" = .ok (.method m) := by decide +kernel
  have hagreed := canonical_overwrite_names_its_handler r
    (handler "([La/T;I)V" ["a/T", "a/S"]) himages
  have htorn := canonical_overwrite_names_its_handler r
    (handler "([La/T;I)V" ["a/T", "a/R"]) himages
  have hmalformed := canonical_overwrite_names_its_handler r (handler "I" ["a/T"]) himages
  refine ⟨?_, ?_, hmalformed.malformed fun m hm => ?_⟩
  · obtain ⟨arguments, result, hrun, hlength, hdesc⟩ :=
      hagreed.agreed m "go" hm (by decide +kernel) (by decide +kernel)
    have hsignature : r.naming.signature "([La/T;I)V" = .ok "([Lb/U;I)V" := by decide +kernel
    exact ⟨arguments, result, hrun, hlength, Except.ok.inj (hdesc.symm.trans hsignature)⟩
  · exact htorn.torn m hm "a/T" (by decide +kernel) "a/R" (by decide +kernel) (by decide +kernel)
  · have hfield : Descriptor.parse "I" = .ok (.field ⟨0, .primitive .int⟩) := by decide +kernel
    cases hfield.symm.trans hm

end MixinNaming
