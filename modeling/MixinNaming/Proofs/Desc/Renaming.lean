import MixinNaming.Proofs.Desc.Reading
import MixinNaming.Proofs.Descriptor.Splitting
import MixinNaming.Proofs.Frame.Edits
/-! What becomes of a @Desc. Once its name is certain, the node states the reference in the target
namespace: the types are taken apart again and spell the renamed descriptor, in the elements that
the node has had before. -/
namespace MixinNaming

open Annotation (contains_eq_isSome get?_set_of_ne get?_set_self)

def DescMode.ofDescriptor (desc : String) : DescMode :=
  if Descriptor.isMethod desc then .method else .field

namespace DescReference

variable {n : Naming} {mode : DescMode} {node : Annotation} {d : DescReference}

theorem rename_ofDescriptor (m : MemberRef) :
    rename n (DescMode.ofDescriptor m.desc) m = n.member m := by
  rw [DescMode.ofDescriptor, Naming.member, MemberRef.isMethod]
  split
  · rfl
  · rfl

theorem argumentItems_set_of_ne {name : String} (h : "args" ≠ name) (v : AnnotationValue) :
    argumentItems (node.set name v) = argumentItems node := by
  rw [argumentItems, argumentItems, get?_set_of_ne h]

theorem Spells.set {result : Option String} {desc name : String} (h : Spells mode node result desc)
    (hname : "args" ≠ name) (v : AnnotationValue) : Spells mode (node.set name v) result desc := by
  cases mode with
  | field => exact h
  | method =>
    obtain ⟨arguments, hitems, hdesc⟩ := h
    exact ⟨arguments, (argumentItems_set_of_ne hname v).trans hitems, hdesc⟩

def putTypes (d : DescReference) (arguments : List String) (result : String)
    (node : Annotation) : Annotation :=
  let node := if d.result.isSome then node.set "ret" (.type ⟨result⟩) else node
  if node.contains "args" then node.set "args" (.array (literals arguments)) else node

namespace States

theorem setName (h : States mode node d) (name : String) :
    States mode (node.set "value" (.string name)) { d with name } where
  desc := h.desc
  name := node.get?_set_self "value" _
  owner := (get?_set_of_ne (by decide) _).trans h.owner
  named := h.named
  result := (get?_set_of_ne (by decide) _).trans h.result
  types := h.types.set (by decide) _

theorem renameOwner (h : States mode node d)
    (hnamed : ∀ owner, d.owner = some owner → n.className owner ≠ "") :
    States mode (d.renameOwner n node) { d with owner := d.owner.map n.className } := by
  rw [DescReference.renameOwner]
  cases howner : d.owner with
  | none =>
    have hnode := h.owner
    rw [howner] at hnode
    exact ⟨h.desc, h.name, hnode, by simp, h.result, h.types⟩
  | some owner =>
    refine ⟨h.desc, ?_, node.get?_set_self "owner" _, ?_, ?_, h.types.set (by decide) _⟩
    · exact (get?_set_of_ne (by decide) _).trans h.name
    · exact fun heq => hnamed owner howner (Option.some.inj heq)
    · exact (get?_set_of_ne (by decide) _).trans h.result

/-- The type of a field is renamed as it stands. -/
theorem renameField (h : States .field node d) (hresult : d.result = some d.desc)
    (hfield : Descriptor.isMethod d.desc = false) {desc : String}
    (hdesc : n.signature d.desc = .ok desc) :
    ∃ typed, d.renameTypes n .field node = .ok typed ∧
      States .field typed { d with result := some desc, desc } := by
  refine ⟨node.set "ret" (.type ⟨desc⟩), ?_, ?_⟩
  · rw [renameTypes, hresult, Naming.fieldSignature, hfield, hdesc]
    rfl
  · refine ⟨h.desc, ?_, ?_, h.named, node.get?_set_self "ret" _, rfl⟩
    · exact (get?_set_of_ne (by decide) _).trans h.name
    · exact (get?_set_of_ne (by decide) _).trans h.owner

theorem putTypes (h : States .method node d) (arguments : List String) (result : String)
    (hvoid : d.result = none → result = "V")
    (hnone : node.get? "args" = none → arguments = []) :
    States .method (d.putTypes arguments result node) { d with
      result := d.result.map fun _ => result
      desc := Descriptor.build arguments result } := by
  rw [DescReference.putTypes]
  generalize hmiddle : (if d.result.isSome = true then node.set "ret" (.type ⟨result⟩) else node) =
    middle
  have hother : ∀ {name}, name ≠ "ret" → middle.get? name = node.get? name := by
    intro name hname
    rw [← hmiddle]
    split
    · exact get?_set_of_ne hname _
    · rfl
  have hret : middle.get? "ret" = (d.result.map fun _ => result).map fun t => .type ⟨t⟩ := by
    have hold := h.result
    rw [← hmiddle]
    cases hresult : d.result with
    | none => exact hold.trans (congrArg _ hresult)
    | some t => exact node.get?_set_self "ret" _
  have hvalue : result = (d.result.map fun _ => result).getD "V" := by
    cases hresult : d.result with
    | none => exact hvoid hresult
    | some t => rfl
  have hdesc : middle.desc = Vocabulary.descType := by
    rw [← hmiddle]
    split
    · exact h.desc
    · exact h.desc
  by_cases hargs : middle.contains "args" = true
  · rw [if_pos hargs]
    refine ⟨hdesc, ?_, ?_, h.named, ?_, arguments, ?_, by rw [← hvalue]⟩
    · exact ((get?_set_of_ne (by decide) _).trans (hother (by decide))).trans h.name
    · exact ((get?_set_of_ne (by decide) _).trans (hother (by decide))).trans h.owner
    · exact (get?_set_of_ne (by decide) _).trans hret
    · rw [argumentItems, get?_set_self]
      rfl
  · have hmissing : middle.get? "args" = none := by
      rwa [contains_eq_isSome, Option.not_isSome_iff_eq_none] at hargs
    rw [if_neg hargs]
    refine ⟨hdesc, (hother (by decide)).trans h.name, (hother (by decide)).trans h.owner, h.named,
      hret, arguments, ?_, by rw [← hvalue]⟩
    rw [argumentItems, hmissing, hnone ((hother (by decide)).symm.trans hmissing)]
    rfl

section Method

variable {m : MethodType} (h : States .method node d) (hlegal : ∀ t ∈ m.types, t.Legal)
  (hdesc : (Descriptor.method m).render = d.desc)
include h hlegal hdesc

/-- The result that a node states is the result of the method, and void if it states none. -/
theorem result_eq : d.result.getD "V" = m.renderResult := by
  obtain ⟨arguments, -, hbuild⟩ := h.types
  exact ((Descriptor.build_eq_render_iff hlegal).1 (hbuild.symm.trans hdesc.symm)).2

theorem result_eq_none (hnone : d.result = none) : m.result = none := by
  have hvoid := h.result_eq hlegal hdesc
  rw [hnone, MethodType.renderResult, Option.getD_none] at hvoid
  have hchars := congrArg String.toList hvoid
  rw [String.toList_ofList (l := resultChars m.result)] at hchars
  exact (resultChars_eq_void (MethodType.forall_types.1 hlegal).2).1 hchars.symm

theorem arguments_eq_nil (hnone : node.get? "args" = none) : m.arguments = [] := by
  obtain ⟨arguments, hitems, hbuild⟩ := h.types
  rw [argumentItems, hnone] at hitems
  have harguments : arguments = [] := List.map_eq_nil_iff.1 hitems.symm
  have hchars := ((Descriptor.build_eq_render_iff hlegal).1 (hbuild.symm.trans hdesc.symm)).1
  rw [harguments] at hchars
  exact (flatMap_chars_eq_nil (MethodType.forall_types.1 hlegal).1).1 hchars.symm

/-- The types of a method are renamed together and then told apart again. -/
theorem renameMethod
    (himages : ∀ c ∈ (Descriptor.method m).classNames, LegalClassName (n.className c)) :
    ∃ typed result, d.renameTypes n .method node = .ok typed ∧ States .method typed { d with
      result := d.result.map fun _ => result
      desc := ((Descriptor.method m).mapNames n.className).render } := by
  let renamed := m.mapNames n.className
  have hrenamed : ∀ t ∈ renamed.types, t.Legal := Descriptor.legal_mapNames.2 himages
  have hmethod : Descriptor.isMethod d.desc = true := by
    rw [← hdesc]
    exact (Descriptor.isMethod_render (t := .method m) hlegal).2 ⟨m, rfl⟩
  have hsignature : n.methodSignature d.desc = .ok (Descriptor.method renamed).render := by
    rw [Naming.methodSignature, if_pos hmethod, ← hdesc]
    exact Descriptor.mapClassNames_render (t := .method m) hlegal n.className
  have hsplit := Descriptor.split_render hrenamed
  have hstates := h.putTypes (renamed.arguments.map FieldType.render) renamed.renderResult
    (fun hnone => ?_) (fun hnone => ?_)
  · rw [Descriptor.build_of_split hsplit] at hstates
    refine ⟨_, _, ?_, hstates⟩
    rw [renameTypes, hsignature]
    change Except.bind (Descriptor.split (Descriptor.method renamed).render) _ = _
    rw [hsplit]
    rfl
  · have hresult := h.result_eq_none hlegal hdesc hnone
    simp only [renamed, MethodType.mapNames, hresult, MethodType.renderResult]
    rfl
  · simp [renamed, MethodType.mapNames, h.arguments_eq_nil hlegal hdesc hnone]

end Method

end States

/-- The types of a reference to a legal descriptor are renamed whatever elements state them. -/
theorem States.renameTypes (h : States mode node d) (hmode : mode = .ofDescriptor d.desc)
    (htyped : mode = .field → d.result ≠ none) {desc : String}
    (hdesc : n.signature d.desc = .ok desc)
    (himages : ∀ c ∈ Descriptor.visitedNames d.desc, LegalClassName (n.className c)) :
    ∃ typed result, d.renameTypes n mode node = .ok typed ∧
      States mode typed { d with result := d.result.map fun _ => result, desc } := by
  obtain ⟨t, hlegal, hrender, rfl⟩ := Descriptor.mapClassNames_eq_ok_iff.1 hdesc
  rw [← hrender, Descriptor.visitedNames_render hlegal] at himages
  have hkind := Descriptor.isMethod_render hlegal
  rw [hrender] at hkind
  rw [DescMode.ofDescriptor] at hmode
  cases t with
  | field u =>
    have hfield : Descriptor.isMethod d.desc = false := by
      rw [Bool.eq_false_iff, ne_eq, hkind]
      rintro ⟨m, hm⟩
      cases hm
    obtain rfl : mode = .field := by
      rw [hmode, hfield]
      rfl
    obtain ⟨type, htype⟩ := Option.ne_none_iff_exists'.1 (htyped rfl)
    have htypes : d.desc = d.result.getD "V" := h.types
    have hresult : d.result = some d.desc := by
      rw [htypes, htype]
      rfl
    obtain ⟨typed, htyped, hstates⟩ := h.renameField hresult hfield hdesc
    refine ⟨typed, ((Descriptor.field u).mapNames n.className).render, htyped, ?_⟩
    rw [hresult]
    exact hstates
  | method m =>
    obtain rfl : mode = .method := by
      rw [hmode, hkind.2 ⟨m, rfl⟩]
      rfl
    exact h.renameMethod hlegal hrender himages

end DescReference

namespace Remapper

variable {r : Remapper} {location : String} {t : TargetSet} {mode : DescMode} {node : Annotation}

structure RenamesDesc (r : Remapper) (location : String) (t : TargetSet) (mode : DescMode)
    (node : Annotation) (d : DescReference) (name : String) (typed : Annotation) : Prop where
  read : (DescReference.read r location mode node).result = .ok d
  newName : (d.newName r location mode t).result = .ok name
  types : d.renameTypes r.naming mode (node.set "value" (.string name)) = .ok typed

theorem RenamesDesc.value {d : DescReference} {name : String} {typed : Annotation}
    (h : r.RenamesDesc location t mode node d name typed) :
    (r.remapDesc location t mode node).value = d.renameOwner r.naming typed := by
  rw [remapDesc, Edit.given_value h.read, Edit.given_value h.newName]
  dsimp only
  rw [h.types]
  rfl

theorem remapDesc_fault_eq_none : (r.remapDesc location t mode node).fault = none ↔
    ∃ d name typed, r.RenamesDesc location t mode node d name typed := by
  simp only [remapDesc, Edit.given_fault_eq_none]
  constructor
  · rintro ⟨d, hread, name, hname, h⟩
    cases htypes : d.renameTypes r.naming mode (node.set "value" (.string name)) with
    | error e =>
      rw [htypes] at h
      cases h
    | ok typed => exact ⟨d, name, typed, hread, hname, htypes⟩
  · rintro ⟨d, name, typed, h⟩
    refine ⟨d, h.read, name, h.newName, ?_⟩
    rw [h.types]
    rfl

/-- A reference that is read and whose name is certain is stated anew in the target namespace. -/
theorem remapDesc_states {d : DescReference} {name desc : String}
    (hread : (DescReference.read r location mode node).result = .ok d)
    (hname : (d.newName r location mode t).result = .ok name)
    (hmode : mode = .ofDescriptor d.desc) (htyped : mode = .field → d.result ≠ none)
    (hdesc : r.naming.signature d.desc = .ok desc)
    (himages : ∀ c ∈ Descriptor.visitedNames d.desc, LegalClassName (r.naming.className c))
    (hnamed : ∀ owner, d.owner = some owner → r.naming.className owner ≠ "") :
    (r.remapDesc location t mode node).fault = none ∧ ∃ result,
      DescReference.States mode (r.remapDesc location t mode node).value
        ⟨name, d.owner.map r.naming.className, d.result.map fun _ => result, desc⟩ := by
  have hstates := (DescReference.read_eq_ok.1 hread).2.2.setName name
  obtain ⟨typed, result, htypes, hrenamed⟩ := hstates.renameTypes hmode htyped hdesc himages
  have hsteps : r.RenamesDesc location t mode node d name typed := ⟨hread, hname, htypes⟩
  refine ⟨remapDesc_fault_eq_none.2 ⟨d, name, typed, hsteps⟩, result, ?_⟩
  rw [hsteps.value]
  exact hrenamed.renameOwner hnamed

end Remapper

end MixinNaming
