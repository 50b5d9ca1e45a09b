import MixinNaming.ClassPass
import MixinNaming.MappingTable
import MixinNaming.Proofs.Desc.Renaming
/-! A lone value at a list position against the list that holds it alone. Both are edited in the
same way: with the same events and the same fault, and what comes out is again a lone value and the
list that holds it. -/
namespace MixinNaming

open Annotation (contains_eq_true get?_set_of_ne mem_names_of_get? names_set set_comm)

namespace AnnotationValue

variable {v : AnnotationValue}

def listed (v : AnnotationValue) : AnnotationValue := .array [v]

theorem items_of_lone (hv : v.array? = none) : v.items = [v] := by
  cases v with
  | array items => cases hv
  | _ => rfl

theorem withItems_of_lone (hv : v.array? = none) (x : AnnotationValue) : v.withItems [x] = x := by
  cases v with
  | array items => cases hv
  | _ => rfl

theorem strings?_listed (hv : v.array? = none) : v.listed.strings? = v.strings? := by
  rw [strings?_eq_mapM, strings?_eq_mapM, items_of_lone hv]
  rfl

theorem exists_text_of_lone (hv : v.array? = none) {texts : List String}
    (h : v.strings? = some texts) : ∃ text, texts = [text] := by
  rw [strings?_eq_some, items_of_lone hv] at h
  have hlength := congrArg List.length h
  rw [List.length_map] at hlength
  exact List.length_eq_one_iff.1 hlength.symm

end AnnotationValue

open AnnotationValue (listed items_of_lone withItems_of_lone strings?_listed)

section Edits

variable {v : AnnotationValue}

def editItems (f : List AnnotationValue → Edit (List AnnotationValue)) (v : AnnotationValue) :
    Edit AnnotationValue := (f v.items).map v.withItems

def editTexts (refusal : Fault) (f : List String → Edit (List String)) (v : AnnotationValue) :
    Edit AnnotationValue :=
  match v.strings? with
  | none => .stop v refusal
  | some texts => (f texts).map v.withStrings

theorem editItems_listed (hv : v.array? = none)
    (f : Nat → AnnotationValue → Edit AnnotationValue) :
    editItems (Edit.eachIndexed f) v.listed = (editItems (Edit.eachIndexed f) v).map listed := by
  rw [editItems, editItems, items_of_lone hv]
  change (Edit.eachIndexed f [v]).map _ = _
  simp only [Edit.eachIndexed_singleton, Edit.map, withItems_of_lone hv]
  rfl

theorem editTexts_listed (hv : v.array? = none) (refusal : Fault)
    {f : List String → Edit (List String)}
    (hlength : ∀ texts, (f texts).value.length = texts.length) :
    editTexts refusal f v.listed = (editTexts refusal f v).map listed := by
  rw [editTexts, editTexts, strings?_listed hv]
  cases htexts : v.strings? with
  | none => rfl
  | some texts =>
    obtain ⟨text, rfl⟩ := AnnotationValue.exists_text_of_lone hv htexts
    obtain ⟨edited, hedited⟩ := List.length_eq_one_iff.1 (hlength [text])
    simp only [Edit.map, hedited, AnnotationValue.withStrings, List.map_cons, List.map_nil,
      withItems_of_lone hv]
    rfl

end Edits

section Positions

variable {v : AnnotationValue} {r : Remapper}

theorem remapSelectorList_listed (hv : v.array? = none) (owner : String) (targets : TargetSet)
    (filter : DescriptorFilter) :
    r.remapSelectorList owner targets filter v.listed =
      (r.remapSelectorList owner targets filter v).map listed :=
  editItems_listed hv _

theorem onNodes_listed (hv : v.array? = none) (h : Handler) (element : String)
    (f : Option Nat → Annotation → Edit Annotation) :
    ElementRule.onNodes h element f v.listed = (ElementRule.onNodes h element f v).map listed :=
  editItems_listed hv _

theorem Edit.map_given {α β γ : Type} (x : Attempt β) (a : α) (next : β → Edit α) (f : α → γ) :
    (given x a next).map f = given x (f a) fun b => (next b).map f := by
  rw [given, given]
  split <;> rfl

/-- Every rule for a list takes a lone value as a list of one. -/
theorem ElementRule.remap_listed (hv : v.array? = none) {rule : ElementRule}
    (hrule : rule ∈ [listTarget, injectListTarget, atList, sliceList]) (h : Handler)
    (element : String) :
    rule.remap r h element v.listed = (rule.remap r h element v).map listed := by
  simp only [List.mem_cons, List.not_mem_nil, or_false] at hrule
  rcases hrule with rfl | rfl | rfl | rfl
  · exact remapSelectorList_listed hv _ _ _
  · rw [remap, remap, Edit.map_given]
    simp only [remapSelectorList_listed hv]
  · exact onNodes_listed hv h element fun ordinal => r.remapAt h.mixin h.signature ordinal h.targets
  · exact onNodes_listed hv h element fun ordinal =>
      r.remapSlice h.mixin h.signature ordinal h.targets

theorem remapAliases_listed (hv : v.array? = none) (site : Site) (label : String)
    (targets : TargetSet) :
    r.remapAliases site label targets v.listed = (r.remapAliases site label targets v).map listed :=
  editTexts_listed hv _ fun _ => Edit.length_each _ _

theorem ConstantArguments.length_editFrom (n : Naming) (location : String) (found : Bool)
    (entries : List String) :
    (editFrom n location found entries).value.length = entries.length := by
  induction entries generalizing found with
  | nil =>
    rw [editFrom]
    split <;> rfl
  | cons entry rest ih =>
    rw [editFrom]
    split
    · exact congrArg (· + 1) (ih found)
    · split
      · rfl
      · split
        · rfl
        · exact congrArg (· + 1) (ih true)

theorem InjectionPoint.length_editEntries (p : InjectionPoint) (r : Remapper) (location : String)
    (entries : List String) : (p.editEntries r location entries).value.length = entries.length := by
  cases p with
  | invoke => exact Edit.length_each _ _
  | field => exact Edit.length_each _ _
  | constant => exact ConstantArguments.length_editFrom _ _ false entries
  | head | «return» | tail =>
    rw [editEntries]
    split <;> rfl

theorem InjectionPoint.remapArguments_listed (hv : v.array? = none) (p : InjectionPoint)
    (location : String) : p.remapArguments r location (some v.listed) =
      (p.remapArguments r location (some v)).map (Option.map listed) := by
  have hedit : ∀ w, p.remapArguments r location (some w) =
      (editTexts (.illegal location .atArgumentsKind) (p.editEntries r location) w).map some := by
    intro w
    rw [remapArguments, editTexts]
    cases w.strings? <;> rfl
  rw [hedit, hedit, editTexts_listed hv _ (p.length_editEntries r location), Edit.map_map,
    Edit.map_map]
  rfl

theorem Declaration.remapElement_listed (hv : v.array? = none) (mixin : String) {name : String}
    (hname : name ∈ ["value", "targets"]) :
    remapElement r mixin name v.listed = (remapElement r mixin name v).map listed := by
  simp only [List.mem_cons, List.not_mem_nil, or_false] at hname
  rcases hname with rfl | rfl
  · exact editItems_listed hv fun _ => renameLiteral r.naming mixin
  · have hedit : ∀ w, remapElement r mixin "targets" w =
        editTexts (.illegal "" (.mixinTargetNames mixin))
          (fun written => .keep (written.map (renameText r.naming))) w := by
      intro w
      rw [remapElement, if_neg (by decide), if_pos rfl, editTexts]
      cases w.strings? <;> rfl
    rw [hedit, hedit]
    exact editTexts_listed hv _ fun _ => List.length_map _

theorem Declaration.elementTargets_listed (hv : v.array? = none) (name : String) :
    elementTargets (name, v.listed) = elementTargets (name, v) := by
  rw [elementTargets, elementTargets, strings?_listed hv, items_of_lone hv]
  rfl

end Positions

section DescArguments

open DescReference

variable {v : AnnotationValue} {node : Annotation} {r : Remapper}

theorem read_set_args (hv : v.array? = none) (hargs : node.get? "args" = some v)
    (location : String) :
    DescReference.read r location .method (node.set "args" v.listed) =
      DescReference.read r location .method node := by
  have hmem := Annotation.mem_names_of_get? hargs
  have hother : ∀ name, name ≠ "args" → (node.set "args" v.listed).get? name = node.get? name :=
    fun name hname => Annotation.get?_set_of_ne hname _
  have hdesc : (node.set "args" v.listed).desc = node.desc := rfl
  have hname : DescReference.readName location (node.set "args" v.listed) =
      DescReference.readName location node := by
    rw [DescReference.readName, DescReference.readName, hother "value" (by decide)]
  have howner : readOwner location (node.set "args" v.listed) = readOwner location node := by
    rw [readOwner, readOwner, hother "owner" (by decide)]
  have hresult : DescReference.readResult location (node.set "args" v.listed) =
      DescReference.readResult location node := by
    rw [DescReference.readResult, DescReference.readResult, hother "ret" (by decide)]
  have htypes : ∀ result, readDesc r location .method (node.set "args" v.listed) result =
      readDesc r location .method node result := by
    intro result
    rw [readDesc, readDesc, Annotation.get?_set_self, hargs]
    dsimp only
    rw [items_of_lone hv]
    rfl
  simp only [DescReference.read, Annotation.names_set hmem, hdesc, hname, howner, hresult, htypes]

/-- The arguments are written anew, whatever stood in their place. -/
theorem putTypes_set_args (d : DescReference) (hargs : node.get? "args" = some v)
    (arguments : List String) (result : String) (w : AnnotationValue) :
    d.putTypes arguments result (node.set "args" w) = d.putTypes arguments result node := by
  have hput : ∀ (a : Annotation) (written : AnnotationValue), "args" ∈ a.names →
      (if (a.set "args" w).contains "args" then (a.set "args" w).set "args" written
        else a.set "args" w) = if a.contains "args" then a.set "args" written else a := by
    intro a written ha
    have hset : "args" ∈ (a.set "args" w).names := by rwa [names_set ha]
    rw [if_pos (contains_eq_true.2 hset), if_pos (contains_eq_true.2 ha),
      Annotation.set_set]
  have hmem := Annotation.mem_names_of_get? hargs
  rw [putTypes, putTypes]
  cases d.result with
  | none => exact hput node _ hmem
  | some type =>
    have hret : (node.set "ret" (.type ⟨result⟩)).get? "args" = some v :=
      (get?_set_of_ne (by decide) _).trans hargs
    simp only [Option.isSome_some, if_true, Annotation.set_comm (by decide : "ret" ≠ "args") hmem]
    exact hput _ _ (mem_names_of_get? hret)

theorem renameTypes_set_args (d : DescReference) (n : Naming)
    (hargs : node.get? "args" = some v) (w : AnnotationValue) :
    d.renameTypes n .method (node.set "args" w) = d.renameTypes n .method node := by
  have hput : ∀ a : Annotation, d.renameTypes n .method a =
      (n.methodSignature d.desc).bind fun desc => (Descriptor.split desc).bind fun parts =>
        .ok (d.putTypes parts.1 parts.2 a) := fun _ => rfl
  rw [hput, hput]
  simp only [putTypes_set_args d hargs]

structure Edit.EndsWith {α : Type} (e f : Edit α) : Prop where
  events : e.events = f.events
  fault : e.fault = f.fault
  value : f.fault = none → e.value = f.value

theorem Edit.EndsWith.given {α β : Type} {x : Attempt β} {a b : α} {f g : β → Edit α}
    (h : ∀ y, (f y).EndsWith (g y)) : (given x a f).EndsWith (given x b g) := by
  rw [Edit.given, Edit.given]
  cases x.result with
  | ok y => exact ⟨congrArg (x.events ++ ·) (h y).events, (h y).fault, (h y).value⟩
  | error e => exact ⟨rfl, rfl, fun h => by cases h⟩

/-- A @Desc with a list of one argument ends as the @Desc with a lone argument does. -/
theorem remapDesc_listed (hv : v.array? = none) (hargs : node.get? "args" = some v)
    (location : String) (targets : TargetSet) :
    (r.remapDesc location targets .method (node.set "args" v.listed)).EndsWith
      (r.remapDesc location targets .method node) := by
  rw [Remapper.remapDesc, Remapper.remapDesc, read_set_args hv hargs]
  refine .given fun d => .given fun name => ?_
  have hvalue : (node.set "value" (.string name)).get? "args" = some v :=
    (get?_set_of_ne (by decide) _).trans hargs
  dsimp only
  rw [set_comm (by decide) (mem_names_of_get? hargs),
    renameTypes_set_args d r.naming hvalue]
  cases d.renameTypes r.naming .method _ with
  | error e => exact ⟨rfl, rfl, fun h => by cases h⟩
  | ok typed => exact ⟨rfl, rfl, fun _ => rfl⟩

end DescArguments

/-- A lone value and the list that holds it alone come to the same: they name the same targets, show
the same events and end in the same fault, and what is left of the list is the list of what is left
of the lone value. The arguments of a @Desc are even the same list afterwards. -/
theorem lone_value_is_list_of_one (r : Remapper) {v : AnnotationValue} (hv : v.array? = none) :
    (∀ mixin, ∀ name ∈ ["value", "targets"],
      Declaration.remapElement r mixin name v.listed =
          (Declaration.remapElement r mixin name v).map listed ∧
        Declaration.elementTargets (name, v.listed) = Declaration.elementTargets (name, v)) ∧
    (∀ site targets,
      r.remapShadowElement site targets "aliases" v.listed =
          (r.remapShadowElement site targets "aliases" v).map listed ∧
        r.remapOverwriteElement site targets "aliases" v.listed =
          (r.remapOverwriteElement site targets "aliases" v).map listed) ∧
    (∀ (p : InjectionPoint) location,
      p.remapArguments r location (some v.listed) =
        (p.remapArguments r location (some v)).map (Option.map listed)) ∧
    (∀ rule ∈ [ElementRule.listTarget, .injectListTarget, .atList, .sliceList], ∀ h element,
      rule.remap r h element v.listed = (rule.remap r h element v).map listed) ∧
    ∀ location targets node, node.get? "args" = some v →
      (r.remapDesc location targets .method (node.set "args" v.listed)).EndsWith
        (r.remapDesc location targets .method node) := by
  refine ⟨fun mixin name hname => ⟨?_, ?_⟩, fun site targets => ⟨?_, ?_⟩, fun p location => ?_,
    fun rule hrule h element => ?_, fun location targets node hargs => ?_⟩
  · exact Declaration.remapElement_listed hv mixin hname
  · exact Declaration.elementTargets_listed hv name
  · exact remapAliases_listed hv site "@Shadow" targets
  · exact remapAliases_listed hv site Remapper.overwriteLabel targets
  · exact p.remapArguments_listed hv location
  · exact ElementRule.remap_listed hv hrule h element
  · exact remapDesc_listed hv hargs location targets

/-- A class literal, which is a target and an argument of a @Desc, but no selector. -/
theorem lone_literal_is_list_of_one :
    let r : Remapper := ⟨(MappingTable.empty.withClass "a/T" "b/U").naming, .empty, .failFast⟩
    let h : Handler := ⟨"m/M", "run", "()V", .empty⟩
    let literal : AnnotationValue := .type (.object "a/T")
    let node : Annotation :=
      ⟨Vocabulary.descType, [("args", literal), ("value", .string "run"),
        ("owner", .type (.object "a/T"))]⟩
    literal.array? = none ∧
      ("value" ∈ ["value", "targets"] ∧
        ((Declaration.remapElement r "m/M" "value" literal).value.type? = some (.object "b/U") ∧
          Declaration.remapElement r "m/M" "value" literal.listed =
            (Declaration.remapElement r "m/M" "value" literal).map listed)) ∧
      (ElementRule.listTarget ∈ [ElementRule.listTarget, .injectListTarget, .atList, .sliceList] ∧
        (ElementRule.listTarget.remap r h "method" literal).fault.isSome = true ∧
          ElementRule.listTarget.remap r h "method" literal.listed =
            (ElementRule.listTarget.remap r h "method" literal).map listed) ∧
      node.get? "args" = some literal ∧
        (r.remapDesc "" .empty .method node).fault = none ∧
          (r.remapDesc "" .empty .method (node.set "args" literal.listed)).EndsWith
            (r.remapDesc "" .empty .method node) := by
  intro r h literal node
  obtain ⟨hdeclaration, -, -, hrule, hdesc⟩ := lone_value_is_list_of_one r (v := literal) rfl
  have hvalue : "value" ∈ ["value", "targets"] := by decide
  have hlist : ElementRule.listTarget ∈
      [ElementRule.listTarget, .injectListTarget, .atList, .sliceList] := by decide
  refine ⟨rfl, ⟨hvalue, ?_, (hdeclaration "m/M" "value" hvalue).1⟩,
    ⟨hlist, ?_, hrule .listTarget hlist h "method"⟩, rfl, ?_, hdesc "" .empty node rfl⟩
  · decide +kernel
  · decide +kernel
  · decide +kernel

end MixinNaming
