import MixinNaming.Proofs.Desc.Arguments
import MixinNaming.Proofs.Qualified.Injection
import MixinNaming.Proofs.Selector.Inference
/-! The callback of an injection handler. What a handler takes before its callback its targets have
to take first, and they return a value exactly if the callback carries one. A handler without a
callback stops the run before its annotation is looked at. -/
namespace MixinNaming

def callbackType (returnable : Bool) : FieldType :=
  ⟨0, .reference
    (if returnable then Vocabulary.callbackInfoReturnable else Vocabulary.callbackInfo)⟩

def LacksCallback (desc : String) : Prop :=
  ∀ m, Descriptor.parse desc = .ok (.method m) → ∀ returnable, callbackType returnable ∉ m.arguments

/-- The descriptor is one of a method whose first callback stands right after these arguments. -/
def TakesCallback (desc : String) (leading : List FieldType) (returnable : Bool) : Prop :=
  ∃ more result,
    Descriptor.parse desc = .ok (.method ⟨leading ++ callbackType returnable :: more, result⟩) ∧
      ∀ other, callbackType other ∉ leading

/-- The descriptor is one of a method that takes these arguments first, and that returns a value if
and only if the callback carries one. -/
def Suits (leading : List FieldType) (returnable : Bool) (desc : String) : Prop :=
  ∃ m, Descriptor.parse desc = .ok (.method m) ∧ leading <+: m.arguments ∧
    (m.result = none ↔ returnable = false)

def targetFilter (leading : List FieldType) (returnable : Bool) : DescriptorFilter :=
  .handler (leading.map FieldType.render) !returnable

section Types

theorem callbackType_legal (returnable : Bool) : (callbackType returnable).Legal := by
  refine legalClassName_iff.2 ?_
  cases returnable with
  | false => decide +kernel
  | true => decide +kernel

theorem parse_eq_ok_method_iff {desc : String} {m : MethodType} :
    Descriptor.parse desc = .ok (.method m) ↔
      (∀ u ∈ m.types, u.Legal) ∧ (Descriptor.method m).render = desc :=
  Descriptor.parse_eq_ok_iff

/-- Legal types are told apart by their descriptors. -/
theorem map_render_inj {types others : List FieldType} (h : ∀ u ∈ types, u.Legal)
    (hothers : ∀ u ∈ others, u.Legal)
    (heq : types.map FieldType.render = others.map FieldType.render) : types = others := by
  have hchars := congrArg (List.flatMap String.toList) heq
  simp only [List.flatMap_map, FieldType.render, String.toList_ofList] at hchars
  exact flatMap_chars_inj h hothers hchars

theorem FieldType.render_inj {u v : FieldType} (hu : u.Legal) (hv : v.Legal)
    (h : u.render = v.render) : u = v := by
  have heq := map_render_inj (List.forall_mem_singleton.2 hu) (List.forall_mem_singleton.2 hv)
    (congrArg (fun text => [text]) h)
  exact List.singleton_inj.1 heq

theorem map_render_prefix {types others : List FieldType} (h : ∀ u ∈ types, u.Legal)
    (hothers : ∀ u ∈ others, u.Legal) :
    types.map FieldType.render <+: others.map FieldType.render ↔ types <+: others := by
  rw [List.prefix_iff_eq_take, List.prefix_iff_eq_take, List.length_map, ← List.map_take]
  constructor
  · exact map_render_inj h fun u hu => hothers u (List.mem_of_mem_take hu)
  · exact congrArg (List.map FieldType.render)

end Types

namespace CallbackParameter

variable {arguments before : List String} {argument : String} {index : Nat} {returnable : Bool}

theorem ofArgument?_eq_some :
    ofArgument? argument = some returnable ↔ argument = (callbackType returnable).render := by
  have hplain : "L" ++ Vocabulary.callbackInfo ++ ";" = (callbackType false).render := by
    decide +kernel
  have hvalued : "L" ++ Vocabulary.callbackInfoReturnable ++ ";" = (callbackType true).render := by
    decide +kernel
  have hne : (callbackType false).render ≠ (callbackType true).render := by decide +kernel
  rw [ofArgument?, hplain, hvalued]
  cases returnable with
  | false =>
    split
    · next h => simp [h]
    · next h => split <;> simp [h]
  | true =>
    split
    · next h => simp [h, hne]
    · next h => split <;> simp_all

theorem ofArgument?_render {u : FieldType} (h : u.Legal) :
    ofArgument? u.render = some returnable ↔ u = callbackType returnable := by
  rw [ofArgument?_eq_some]
  constructor
  · exact FieldType.render_inj h (callbackType_legal returnable)
  · exact congrArg FieldType.render

theorem ofArgument?_render_eq_none {types : List FieldType} (h : ∀ u ∈ types, u.Legal) :
    (∀ argument ∈ types.map FieldType.render, ofArgument? argument = none) ↔
      ∀ returnable, callbackType returnable ∉ types := by
  rw [List.forall_mem_map]
  constructor
  · intro hnone returnable hmem
    have hsome := (ofArgument?_render (h _ hmem)).2 rfl
    cases hsome.symm.trans (hnone _ hmem)
  · intro hnone u hu
    refine Option.eq_none_iff_forall_ne_some.2 fun returnable hsome => hnone returnable ?_
    rw [← (ofArgument?_render (h u hu)).1 hsome]
    exact hu

theorem ofArgumentsFrom_eq_none (h : ∀ argument ∈ arguments, ofArgument? argument = none) :
    ofArgumentsFrom index arguments = none := by
  induction arguments generalizing index with
  | nil => rfl
  | cons argument rest ih =>
    obtain ⟨hargument, hrest⟩ := List.forall_mem_cons.1 h
    rw [ofArgumentsFrom, hargument]
    exact ih hrest

/-- The first callback is found, whatever follows it. -/
theorem ofArgumentsFrom_append (hbefore : ∀ argument ∈ before, ofArgument? argument = none)
    (hargument : ofArgument? argument = some returnable) (after : List String) :
    ofArgumentsFrom index (before ++ argument :: after) =
      some ⟨index + before.length, returnable⟩ := by
  induction before generalizing index with
  | nil => rw [List.nil_append, ofArgumentsFrom, hargument]; rfl
  | cons other rest ih =>
    obtain ⟨hother, hrest⟩ := List.forall_mem_cons.1 hbefore
    rw [List.cons_append, ofArgumentsFrom, hother]
    dsimp only
    rw [ih hrest, List.length_cons, Nat.add_assoc, Nat.add_comm 1]

/-- An array of callbacks is none, and of several callbacks the first counts. -/
example : ofArgumentsFrom 0 ["[L" ++ Vocabulary.callbackInfo ++ ";", "I",
    "L" ++ Vocabulary.callbackInfoReturnable ++ ";", "L" ++ Vocabulary.callbackInfo ++ ";"] =
      some ⟨2, true⟩ := by decide +kernel

end CallbackParameter

open CallbackParameter

section Shapes

variable {desc : String} {leading : List FieldType} {returnable : Bool}

/-- A list that holds a callback holds a first one. -/
theorem exists_first_callback {types : List FieldType} (h : callbackType returnable ∈ types) :
    ∃ leading first more, types = leading ++ callbackType first :: more ∧
      ∀ other, callbackType other ∉ leading := by
  induction types with
  | nil => cases h
  | cons u rest ih =>
    by_cases hu : ∃ first, callbackType first = u
    · obtain ⟨first, rfl⟩ := hu
      exact ⟨[], first, rest, rfl, fun other => List.not_mem_nil⟩
    · have hrest : callbackType returnable ∈ rest :=
        (List.mem_cons.1 h).resolve_left fun heq => hu ⟨returnable, heq⟩
      obtain ⟨leading, first, more, rfl, hleading⟩ := ih hrest
      refine ⟨u :: leading, first, more, rfl, fun other hother => ?_⟩
      exact (List.mem_cons.1 hother).elim (fun heq => hu ⟨other, heq⟩) (hleading other)

/-- Every handler that does not lack a callback has a first one. -/
theorem exists_takesCallback (h : ¬LacksCallback desc) :
    ∃ leading returnable, TakesCallback desc leading returnable := by
  simp only [LacksCallback, not_forall, not_not] at h
  obtain ⟨⟨arguments, result⟩, hparse, returnable, hmem⟩ := h
  obtain ⟨leading, first, more, rfl, hleading⟩ := exists_first_callback hmem
  exact ⟨leading, first, more, result, hparse, hleading⟩

theorem TakesCallback.legal (h : TakesCallback desc leading returnable) :
    ∀ u ∈ leading, u.Legal := by
  obtain ⟨more, result, hparse, -⟩ := h
  have hlegal := (MethodType.forall_types.1 (parse_eq_ok_method_iff.1 hparse).1).1
  exact fun u hu => hlegal u (List.mem_append_left _ hu)

/-- The filter accepts nothing but methods that suit the handler. -/
theorem accepts_targetFilter (hleading : ∀ u ∈ leading, u.Legal) :
    (targetFilter leading returnable).accepts desc = true ↔ Suits leading returnable desc := by
  rw [targetFilter, DescriptorFilter.accepts]
  cases hsplit : Descriptor.split desc with
  | error e =>
    simp only [Bool.false_eq_true, false_iff]
    rintro ⟨m, hparse, -⟩
    obtain ⟨hlegal, rfl⟩ := parse_eq_ok_method_iff.1 hparse
    cases hsplit.symm.trans (Descriptor.split_render hlegal)
  | ok parts =>
    obtain ⟨m, hlegal, hrender, harguments, hresult⟩ := Descriptor.split_eq_ok_iff.1 hsplit
    have hparse := parse_eq_ok_method_iff.2 ⟨hlegal, hrender⟩
    have hprefix := map_render_prefix hleading (MethodType.forall_types.1 hlegal).1
    have hvoid : ((m.renderResult == "V") == !returnable) = true ↔
        (m.result = none ↔ returnable = false) := by
      rw [beq_iff_eq, Bool.eq_iff_iff, beq_iff_eq, Bool.not_eq_true', renderResult_eq_void hlegal]
    dsimp only
    rw [← harguments, ← hresult, Bool.and_eq_true, List.isPrefixOf_iff_prefix, hprefix, hvoid]
    constructor
    · rintro ⟨hreturns, hleads⟩
      exact ⟨m, hparse, hleads, hreturns⟩
    · rintro ⟨other, hother, hleads, hreturns⟩
      cases hother.symm.trans hparse
      exact ⟨hreturns, hleads⟩

end Shapes

namespace Handler

variable {h : Handler} {leading : List FieldType} {returnable : Bool}

theorem callbackFilter_of_split {arguments : List String} {result : String}
    (hsplit : Descriptor.split h.desc = .ok (arguments, result)) :
    h.callbackFilter = match ofArgumentsFrom 0 arguments with
      | none => .stop (.illegal "" (.handlerWithoutCallback h.location Vocabulary.callbackInfo
          Vocabulary.callbackInfoReturnable))
      | some callback =>
        .answer (.handler (arguments.take callback.index) !callback.returnable) := by
  have harguments : Descriptor.argumentTypes h.desc = .ok arguments := by
    rw [Descriptor.argumentTypes, hsplit]
    rfl
  have hfind : h.fromDesc CallbackParameter.find = .answer (ofArgumentsFrom 0 arguments) := by
    rw [fromDesc, CallbackParameter.find, harguments]
    rfl
  rw [callbackFilter, hfind, Attempt.answer_bind]
  cases ofArgumentsFrom 0 arguments with
  | none => rfl
  | some callback =>
    dsimp only
    rw [fromDesc, DescriptorFilter.forHandler, harguments]
    rfl

/-- A handler without a callback is refused, whether its descriptor can be read or not. -/
theorem callbackFilter_of_lacks (hlacks : LacksCallback h.desc) :
    ∃ location v, h.callbackFilter = .stop (.illegal location v) := by
  cases hsplit : Descriptor.split h.desc with
  | error e =>
    have hfilter : h.callbackFilter = .stop (.illegal
        ("Malformed handler descriptor of " ++ h.location ++ ": ") (.descriptor e)) := by
      rw [callbackFilter, fromDesc, CallbackParameter.find, Descriptor.argumentTypes, hsplit]
      rfl
    exact ⟨_, _, hfilter⟩
  | ok parts =>
    obtain ⟨m, hlegal, hrender, harguments, -⟩ := Descriptor.split_eq_ok_iff.1 hsplit
    have hnone := hlacks m (parse_eq_ok_method_iff.2 ⟨hlegal, hrender⟩)
    rw [← ofArgument?_render_eq_none (MethodType.forall_types.1 hlegal).1, harguments] at hnone
    have hfilter := callbackFilter_of_split hsplit
    rw [ofArgumentsFrom_eq_none hnone] at hfilter
    exact ⟨_, _, hfilter⟩

theorem callbackFilter_of_takes (htakes : TakesCallback h.desc leading returnable) :
    h.callbackFilter = .answer (targetFilter leading returnable) := by
  obtain ⟨more, result, hparse, hfirst⟩ := htakes
  obtain ⟨hlegal, hrender⟩ := parse_eq_ok_method_iff.1 hparse
  have hsplit := Descriptor.split_render hlegal
  rw [hrender] at hsplit
  have hleading : ∀ u ∈ leading, u.Legal :=
    fun u hu => (MethodType.forall_types.1 hlegal).1 u (List.mem_append_left _ hu)
  have hfound : ofArgumentsFrom 0 (leading.map FieldType.render ++
      (callbackType returnable).render :: more.map FieldType.render) = some ⟨_, returnable⟩ :=
    ofArgumentsFrom_append ((ofArgument?_render_eq_none hleading).2 hfirst)
      ((ofArgument?_render (callbackType_legal returnable)).2 rfl) _
  rw [callbackFilter_of_split hsplit, List.map_append, List.map_cons, hfound, targetFilter]
  dsimp only
  rw [Nat.zero_add, List.take_left]

/-- The callback is asked for before any element of the annotation is looked at. -/
theorem remap_of_refused {f : Fault} (hfilter : h.callbackFilter = .stop f) (r : Remapper)
    (node : Annotation) : InjectorKind.inject.rules.remap r h node = .stop node f := by
  have hhook : RuleSet.applyHooks h InjectorKind.inject.rules.hooks node = .stop node f := by
    change (Edit.check (h.callbackFilter.bind fun _ => .answer ()) node).andThen _ = _
    rw [hfilter]
    rfl
  rw [RuleSet.remap, hhook, Edit.stop_andThen]

theorem remap_of_answered {filter : DescriptorFilter} (hfilter : h.callbackFilter = .answer filter)
    (r : Remapper) (node : Annotation) : InjectorKind.inject.rules.remap r h node =
      node.editElements (InjectorKind.inject.rules.remapElement r h node.desc) := by
  have hhook : RuleSet.applyHooks h InjectorKind.inject.rules.hooks node = .keep node := by
    change (Edit.check (h.callbackFilter.bind fun _ => .answer ()) node).andThen _ = _
    rw [hfilter]
    rfl
  rw [RuleSet.remap, hhook, Edit.keep_andThen]

theorem remapElement_of_answered {filter : DescriptorFilter}
    (hfilter : h.callbackFilter = .answer filter) (r : Remapper) (desc : String)
    (v : AnnotationValue) {element : String} (helement : element ∈ ["method", "target"]) :
    InjectorKind.inject.rules.remapElement r h desc element v =
      (Edit.eachIndexed (fun index item => r.remapSelectorValue
        (Remapper.selectorLocation h.location index item) h.targets filter item)
        v.items).map v.withItems := by
  have hrule : InjectorKind.inject.rules.rule? element = some .injectListTarget := by
    rcases List.mem_pair.1 helement with rfl | rfl
    · rfl
    · rfl
  rw [RuleSet.remapElement, hrule]
  dsimp only
  rw [ElementRule.remap, hfilter]
  rfl

end Handler

namespace Remapper

structure DecidesBy (r : Remapper) (location text : String) (scope : List String)
    (p : MemberRef → Prop) (x : Attempt String) : Prop where
  agreed : ∀ target, (∃ m, p m) → (∀ m, p m → r.naming.Becomes m target) →
    x.result = .ok (Selector.ofMember target).render ∧ x.effect = .passing []
  torn : (∃ m, p m) → (¬∃ target, ∀ m, p m → r.naming.Becomes m target) → x.effect.Refused []
  unmatched : (∀ m, ¬p m) → r.Leaves location text scope x

/-- A partial selector before and after a run that came to its end, where the members that satisfy
`p` decide. -/
inductive Selected (r : Remapper) (p : MemberRef → Prop) (text : String) : String → Prop
  | agreed {target : MemberRef} (hsome : ∃ m, p m) (h : ∀ m, p m → r.naming.Becomes m target) :
      Selected r p text (Selector.ofMember target).render
  | unmatched (h : ∀ m, ¬p m) : Selected r p text text

def SuitingCandidate (r : Remapper) (h : Handler) (leading : List FieldType) (returnable : Bool)
    (s : Selector) (m : MemberRef) : Prop :=
  r.Candidate s h.targets .any m ∧ Suits leading returnable m.desc

def ItemSelected (r : Remapper) (h : Handler) (leading : List FieldType) (returnable : Bool)
    (v w : AnnotationValue) : Prop :=
  ∀ text s, v = .string text → Selector.parse text = .ok s → s.qualified? = none →
    ∃ out, w = .string out ∧ r.Selected (r.SuitingCandidate h leading returnable s) text out

/-- What a run makes of an annotation on a handler whose callback stands after the `leading`
arguments. -/
structure SelectsSuiting (r : Remapper) (h : Handler) (leading : List FieldType)
    (returnable : Bool) : Prop where
  /-- Its elements are edited in order, and the selectors among them with one filter. -/
  passes : ∀ node, InjectorKind.inject.rules.remap r h node =
    node.editElements (InjectorKind.inject.rules.remapElement r h node.desc)
  elements : ∀ desc v, ∀ element ∈ ["method", "target"],
    InjectorKind.inject.rules.remapElement r h desc element v =
      (Edit.eachIndexed (fun index item => r.remapSelectorValue
        (selectorLocation h.location index item) h.targets (targetFilter leading returnable) item)
        v.items).map v.withItems
  texts : ∀ location text,
    r.remapSelectorValue location h.targets (targetFilter leading returnable) (.string text) =
      .replace (r.resolveSelector location text (some h.targets) (targetFilter leading returnable))
        (.string text) .string
  /-- Of the members that a selector could stand for, those that suit the handler are kept. -/
  candidates : ∀ s, ∃ kept,
    (r.inferCandidates s (targetFilter leading returnable) (scopeOf s h.targets)).result =
      .ok kept ∧
    ∀ m, m ∈ kept ↔ r.SuitingCandidate h leading returnable s m
  /-- These members decide what becomes of the selector. -/
  selectors : ∀ location text s, Selector.parse text = .ok s → s.qualified? = none →
    r.DecidesBy location text (scopeOf s h.targets) (r.SuitingCandidate h leading returnable s)
      (r.resolveSelector location text (some h.targets) (targetFilter leading returnable))
  /-- So they have decided every selector of an annotation whose run is not stopped. -/
  selected : ∀ node, (InjectorKind.inject.rules.remap r h node).fault = none →
    List.Forall₂ (fun e f => f.1 = e.1 ∧ (e.1 ∈ ["method", "target"] →
        List.Forall₂ (r.ItemSelected h leading returnable) e.2.items f.2.items))
      node.elements (InjectorKind.inject.rules.remap r h node).value.elements

structure SelectsByCallback (r : Remapper) (h : Handler) : Prop where
  refused : LacksCallback h.desc → ∃ location v, ∀ node,
    InjectorKind.inject.rules.remap r h node = .stop node (.illegal location v)
  found : ¬LacksCallback h.desc → ∃ leading returnable, TakesCallback h.desc leading returnable
  selects : ∀ leading returnable, TakesCallback h.desc leading returnable →
    r.SelectsSuiting h leading returnable

variable {r : Remapper} {s : Selector} {t : TargetSet} {leading : List FieldType}
  {returnable : Bool}

theorem candidate_targetFilter (hleading : ∀ u ∈ leading, u.Legal) {m : MemberRef} :
    r.Candidate s t (targetFilter leading returnable) m ↔
      r.Candidate s t .any m ∧ Suits leading returnable m.desc := by
  rw [← accepts_targetFilter hleading]
  constructor
  · intro hm
    exact ⟨⟨hm.within, hm.declared, hm.name, hm.desc, rfl⟩, hm.accepted⟩
  · rintro ⟨hm, haccepted⟩
    exact ⟨hm.within, hm.declared, hm.name, hm.desc, haccepted⟩

theorem decidesBy_targetFilter {h : Handler} (htakes : TakesCallback h.desc leading returnable)
    {text : String} (location : String) (hs : Selector.parse text = .ok s)
    (hpartial : s.qualified? = none) :
    r.DecidesBy location text (scopeOf s h.targets) (r.SuitingCandidate h leading returnable s)
      (r.resolveSelector location text (some h.targets) (targetFilter leading returnable)) := by
  have hsuiting : r.SuitingCandidate h leading returnable s =
      r.Candidate s h.targets (targetFilter leading returnable) :=
    funext fun m => propext (candidate_targetFilter htakes.legal).symm
  rw [hsuiting]
  exact ⟨fun target hsome hall => resolveSelector_of_agreed hs hpartial hsome hall,
    resolveSelector_of_torn hs hpartial, resolveSelector_of_unmatched hs hpartial⟩

/-- An answer is the common name of the members that decide, or the text itself. -/
theorem DecidesBy.selected {location text : String} {scope : List String} {p : MemberRef → Prop}
    {x : Attempt String} (h : r.DecidesBy location text scope p x) {out : String}
    (hout : x.result = .ok out) : r.Selected p text out := by
  have hfault : x.effect.fault = none := Attempt.effect_fault_eq_none.2 ⟨out, hout⟩
  by_cases hsome : ∃ m, p m
  · by_cases hagreed : ∃ target, ∀ m, p m → r.naming.Becomes m target
    · obtain ⟨target, hall⟩ := hagreed
      cases hout.symm.trans (h.agreed target hsome hall).1
      exact .agreed hsome hall
    · obtain ⟨f, hf, -⟩ := (h.torn hsome hagreed).fault
      cases hfault.symm.trans hf
  · have hnone : ∀ m, ¬p m := fun m hm => hsome ⟨m, hm⟩
    cases hout.symm.trans ((h.unmatched hnone).result hfault)
    exact .unmatched hnone

theorem itemSelected {h : Handler} (htakes : TakesCallback h.desc leading returnable)
    {location : String} {v : AnnotationValue}
    (hv : (r.remapSelectorValue location h.targets (targetFilter leading returnable) v).fault =
      none) :
    r.ItemSelected h leading returnable v
      (r.remapSelectorValue location h.targets (targetFilter leading returnable) v).value := by
  rintro text s rfl hs hpartial
  obtain ⟨out, hout, -⟩ := Edit.given_fault_eq_none.1 hv
  exact ⟨out, Edit.given_value hout _ _,
    (decidesBy_targetFilter htakes location hs hpartial).selected hout⟩

/-- A list is not made of lists: an item of another kind stops the run. -/
theorem array?_remapSelectorValue {location : String} {filter : DescriptorFilter}
    {v : AnnotationValue} (hv : (r.remapSelectorValue location t filter v).fault = none) :
    (r.remapSelectorValue location t filter v).value.array? = none := by
  cases v with
  | string text =>
    obtain ⟨out, hout, -⟩ := Edit.given_fault_eq_none.1 hv
    rw [remapSelectorValue, Edit.replace, Edit.given_value hout]
    rfl
  | nested node => rfl
  | _ => cases hv

theorem remapElement_selected {h : Handler} (htakes : TakesCallback h.desc leading returnable)
    {desc element : String} {v : AnnotationValue} (helement : element ∈ ["method", "target"])
    (hv : (InjectorKind.inject.rules.remapElement r h desc element v).fault = none) :
    List.Forall₂ (r.ItemSelected h leading returnable) v.items
      (InjectorKind.inject.rules.remapElement r h desc element v).value.items := by
  rw [Handler.remapElement_of_answered (Handler.callbackFilter_of_takes htakes) r desc v helement]
    at hv ⊢
  have hitems := items_settled
    (R := fun v w => w.array? = none ∧ r.ItemSelected h leading returnable v w)
    (fun _ _ hvw => hvw.1)
    (fun _ _ hitem => ⟨array?_remapSelectorValue hitem, itemSelected htakes hitem⟩) hv
  exact hitems.imp fun _ _ hvw => hvw.2

theorem selectsSuiting (r : Remapper) {h : Handler}
    (htakes : TakesCallback h.desc leading returnable) :
    r.SelectsSuiting h leading returnable where
  passes := Handler.remap_of_answered (Handler.callbackFilter_of_takes htakes) r
  elements desc v element :=
    Handler.remapElement_of_answered (Handler.callbackFilter_of_takes htakes) r desc v
  texts location text := rfl
  candidates s := by
    refine ⟨r.inferred s h.targets (targetFilter leading returnable),
      inferCandidates_result r s _ _, fun m => ?_⟩
    rw [mem_inferred_iff, candidate_targetFilter htakes.legal]
    rfl
  selectors location text s hs hpartial :=
    decidesBy_targetFilter htakes location hs hpartial
  selected node hnode := by
    rw [Handler.remap_of_answered (Handler.callbackFilter_of_takes htakes)] at hnode ⊢
    exact elements_settled (R := fun name v w => name ∈ ["method", "target"] →
      List.Forall₂ (r.ItemSelected h leading returnable) v.items w.items)
      (fun name v hv hname => remapElement_selected htakes hname hv) hnode

end Remapper

/-- The callback of a handler decides which members its selectors may stand for, and without one
the annotation is left as it is. -/
theorem inject_selects_by_callback (r : Remapper) (h : Handler) : r.SelectsByCallback h where
  refused hlacks := by
    obtain ⟨location, v, hfilter⟩ := Handler.callbackFilter_of_lacks hlacks
    exact ⟨location, v, Handler.remap_of_refused hfilter r⟩
  found := exists_takesCallback
  selects _ _ htakes := r.selectsSuiting htakes

/-- A method that is overloaded by its argument and by its result. The handler takes an argument of
its own type and a callback without a value, and that leaves one of the three. -/
theorem callback_narrows_overloads :
    let table := MappingTable.empty.withMember ⟨⟨"a/T", "run", "(I)V"⟩, "go"⟩
    let info := ((ClassInfo.empty.declaring "run" "(I)V").declaring "run" "(J)V").declaring
      "run" "(I)I"
    let r : Remapper := ⟨table.naming, Hierarchy.empty.withClass "a/T" info, .failFast⟩
    let h : Handler :=
      ⟨"m/M", "handler", "(IL" ++ Vocabulary.callbackInfo ++ ";)V", .single "a/T"⟩
    let node : Annotation := ⟨Vocabulary.inject, [("method", .strings ["run"])]⟩
    let run := InjectorKind.inject.rules.remap r h node
    TakesCallback h.desc [⟨0, .primitive .int⟩] false ∧ run.fault = none ∧
      List.Forall₂ (fun e f => f.1 = e.1 ∧ f.2.items = [.string "La/T;go(I)V"]) node.elements
        run.value.elements := by
  intro table info r h node run
  have hparse : Descriptor.parse h.desc =
      .ok (.method ⟨[⟨0, .primitive .int⟩, callbackType false], none⟩) := by decide +kernel
  have htakes : TakesCallback h.desc [⟨0, .primitive .int⟩] false :=
    ⟨[], none, hparse, fun other => by cases other <;> decide⟩
  have hrun : run.fault = none := by decide +kernel
  have hinfo : r.hierarchy.get? "a/T" = some info := by decide +kernel
  have hint : Descriptor.parse "(I)V" = .ok (.method ⟨[⟨0, .primitive .int⟩], none⟩) := by
    decide +kernel
  have hcandidate : r.SuitingCandidate h [⟨0, .primitive .int⟩] false ⟨none, some "run", none⟩
      ⟨"a/T", "run", "(I)V"⟩ := by
    refine ⟨⟨List.mem_singleton_self _, ⟨info, hinfo, by decide⟩, by simp, by simp, rfl⟩, ?_⟩
    exact ⟨_, hint, List.prefix_rfl, by simp⟩
  have hname : r.naming.canonical ⟨"a/T", "run", "(I)V"⟩ =
      .ok (Selector.ofMember ⟨"a/T", "go", "(I)V"⟩) := by decide +kernel
  have hrender : (Selector.ofMember ⟨"a/T", "go", "(I)V"⟩).render = "La/T;go(I)V" := by
    decide +kernel
  have hselected := ((inject_selects_by_callback r h).selects _ _ htakes).selected node hrun
  refine ⟨htakes, hrun, ?_⟩
  change List.Forall₂ _ node.elements run.value.elements at hselected
  generalize run.value.elements = elements at hselected ⊢
  cases hselected with
  | @cons _ f _ _ hmethod hrest =>
    cases hrest
    refine .cons ⟨hmethod.1, ?_⟩ .nil
    have hitems : List.Forall₂ (r.ItemSelected h [⟨0, .primitive .int⟩] false) [.string "run"]
        f.2.items := hmethod.2 (by decide)
    generalize f.2.items = items at hitems ⊢
    cases hitems with
    | cons hitem hnil =>
      cases hnil
      obtain ⟨out, rfl, hout⟩ := hitem "run" ⟨none, some "run", none⟩ rfl (by decide +kernel) rfl
      cases hout with
      | agreed _ hall =>
        rw [← Except.ok.inj (hname.symm.trans (Naming.becomes_iff.1 (hall _ hcandidate))), hrender]
      | unmatched hnone => exact absurd hcandidate (hnone _)

end MixinNaming
