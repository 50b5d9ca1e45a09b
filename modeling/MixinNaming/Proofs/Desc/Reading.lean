import Mathlib.Data.List.Basic
import MixinNaming.Proofs.Outcome
import MixinNaming.Selector.Desc
/-! What is read of a @Desc: a reading succeeds exactly if the elements of the node have the kinds
and the values that the reference then says. -/
namespace MixinNaming

namespace ClassLiteral

theorem object_inj {a b : String} : object a = object b ↔ a = b := by
  simp [object, String.ext_iff]

theorem reference?_eq_some {t : ClassLiteral} {name : String} :
    t.reference? = some name ↔ name ≠ "" ∧ object name = t := by
  obtain ⟨descriptor⟩ := t
  constructor
  · intro h
    rw [reference?] at h
    split at h
    · next c rest hchars =>
      split at h
      · next hlast =>
        cases h
        have hsplit := List.dropLast_append_getLast? _ hlast.1
        have hdescriptor : descriptor = .ofList ('L' :: c :: rest) := by
          rw [← hchars, String.ofList_toList]
        have hne : (c :: rest).dropLast ≠ [] := by
          obtain ⟨d, more, hrest⟩ := List.exists_cons_of_ne_nil hlast.2
          rw [hrest]
          simp
        refine ⟨fun hempty => hne ?_, ?_⟩
        · rw [← String.toList_ofList (l := (c :: rest).dropLast), hempty]
          rfl
        · rw [object, hdescriptor, ← hsplit]
          simp [String.ext_iff]
      · cases h
    · cases h
  · rintro ⟨hne, heq⟩
    obtain rfl := ClassLiteral.mk.inj heq
    have hchars : name.toList ≠ [] := fun h => hne (String.toList_eq_nil_iff.1 h)
    obtain ⟨c, rest, hname⟩ := List.exists_cons_of_ne_nil hchars
    have hread : ("L" ++ name ++ ";").toList = 'L' :: c :: (rest ++ [';']) := by
      simp [hname]
    rw [reference?]
    dsimp only
    rw [hread]
    have hlast : (c :: (rest ++ [';'])).getLast? = some ';' := by
      rw [← List.cons_append, List.getLast?_append]
      rfl
    have hfront : (c :: (rest ++ [';'])).dropLast = name.toList := by
      rw [← List.cons_append, List.dropLast_concat, hname]
    simp only [hlast, hfront, String.ofList_toList]
    simp

end ClassLiteral

namespace DescReference

variable {r : Remapper} {location : String} {mode : DescMode} {node : Annotation}
  {d : DescReference}

def argumentItems (node : Annotation) : List AnnotationValue :=
  match node.get? "args" with
  | some v => v.items
  | none => []

def literals (types : List String) : List AnnotationValue := types.map fun t => .type ⟨t⟩

/-- Types that a node states make up a descriptor. A missing result is void. -/
def Spells (mode : DescMode) (node : Annotation) (result : Option String) (desc : String) : Prop :=
  match mode with
  | .field => desc = result.getD "V"
  | .method => ∃ arguments, argumentItems node = literals arguments ∧
      desc = Descriptor.build arguments (result.getD "V")

structure States (mode : DescMode) (node : Annotation) (d : DescReference) : Prop where
  desc : node.desc = Vocabulary.descType
  name : node.get? "value" = some (.string d.name)
  owner : node.get? "owner" = d.owner.map fun owner => .type (.object owner)
  named : d.owner ≠ some ""
  result : node.get? "ret" = d.result.map fun t => .type ⟨t⟩
  types : Spells mode node d.result d.desc

theorem readLiteral_eq_ok {element : String} {v : AnnotationValue} {t : ClassLiteral} :
    (readLiteral location element v).result = .ok t ↔ v = .type t := by
  cases v with
  | type t' => simp [readLiteral, Attempt.answer]
  | _ => simp [readLiteral, illegal, Attempt.stop]

theorem readName_eq_ok {name : String} :
    (readName location node).result = .ok name ↔ node.get? "value" = some (.string name) := by
  rw [readName]
  split
  · next heq => simp [heq, Attempt.answer]
  · next other hother heq =>
    simp only [illegal, Attempt.stop, reduceCtorEq, heq, Option.some.injEq, false_iff]
    exact hother name
  · next heq => simp [heq, illegal, Attempt.stop]

theorem readOwner_eq_ok {owner : Option String} :
    (readOwner location node).result = .ok owner ↔
      node.get? "owner" = owner.map (fun owner => .type (.object owner)) ∧ owner ≠ some "" := by
  rw [readOwner]
  cases hv : node.get? "owner" with
  | none =>
    simp only [Attempt.answer, Except.ok.injEq]
    cases owner <;> simp
  | some v =>
    simp only [Attempt.bind_eq_ok, readLiteral_eq_ok]
    constructor
    · rintro ⟨t, rfl, h⟩
      cases hreference : t.reference? with
      | none =>
        rw [hreference] at h
        cases h
      | some name =>
        rw [hreference] at h
        cases h
        obtain ⟨hne, rfl⟩ := ClassLiteral.reference?_eq_some.1 hreference
        exact ⟨rfl, fun heq => hne (Option.some.inj heq)⟩
    · rintro ⟨heq, hne⟩
      cases owner with
      | none => cases heq
      | some name =>
        have hreference : (ClassLiteral.object name).reference? = some name :=
          ClassLiteral.reference?_eq_some.2 ⟨fun h => hne (congrArg some h), rfl⟩
        refine ⟨.object name, Option.some.inj heq, ?_⟩
        rw [hreference]
        rfl

theorem readResult_eq_ok {result : Option String} :
    (readResult location node).result = .ok result ↔
      node.get? "ret" = result.map fun t => .type ⟨t⟩ := by
  rw [readResult]
  cases hv : node.get? "ret" with
  | none =>
    simp only [Attempt.answer, Except.ok.injEq]
    cases result <;> simp
  | some v =>
    simp only [Attempt.bind_eq_ok, readLiteral_eq_ok, Attempt.answer, Except.ok.injEq]
    constructor
    · rintro ⟨t, rfl, rfl⟩
      rfl
    · intro heq
      cases result with
      | none => cases heq
      | some t => exact ⟨⟨t⟩, Option.some.inj heq, rfl⟩

theorem readArguments_eq_ok {items : List AnnotationValue} {arguments : List String} :
    (readArguments location items).result = .ok arguments ↔ items = literals arguments := by
  induction items generalizing arguments with
  | nil => cases arguments <;> simp [readArguments, literals, Attempt.answer]
  | cons v rest ih =>
    simp only [readArguments, Attempt.bind_eq_ok, readLiteral_eq_ok, ih, Attempt.answer,
      Except.ok.injEq]
    constructor
    · rintro ⟨t, rfl, more, rfl, rfl⟩
      rfl
    · intro heq
      cases arguments with
      | nil => cases heq
      | cons t more =>
        obtain ⟨hv, hrest⟩ := List.cons.inj heq
        exact ⟨⟨t⟩, hv, more, hrest, rfl⟩

theorem readDesc_eq_ok {result : Option String} {desc : String} :
    (readDesc r location mode node result).result = .ok desc ↔
      (mode = .field → result = none → (r.report location .descFieldType).result = .ok ()) ∧
        Spells mode node result desc := by
  cases mode with
  | field =>
    cases result with
    | none =>
      simp only [readDesc, Attempt.bind_eq_ok, Attempt.answer, Except.ok.injEq, Spells,
        Option.getD_none, forall_const]
      constructor
      · rintro ⟨⟨⟩, hreport, rfl⟩
        exact ⟨hreport, rfl⟩
      · rintro ⟨hreport, rfl⟩
        exact ⟨(), hreport, rfl⟩
    | some t => simp [readDesc, Spells, Attempt.answer, eq_comm]
  | method =>
    have hread : (readDesc r location .method node result).result =
        ((readArguments location (argumentItems node)).bind fun arguments =>
          .answer (Descriptor.build arguments (result.getD "V"))).result := rfl
    simp only [hread, Attempt.bind_eq_ok, readArguments_eq_ok, Attempt.answer, Except.ok.injEq]
    constructor
    · rintro ⟨arguments, hitems, rfl⟩
      exact ⟨fun hmode => absurd hmode (by decide), arguments, hitems, rfl⟩
    · rintro ⟨-, arguments, hitems, rfl⟩
      exact ⟨arguments, hitems, rfl⟩

/-- A reading succeeds if the node states a reference and its gaps are passed over. -/
theorem read_eq_ok : (read r location mode node).result = .ok d ↔
    (r.reportEach location ((node.names.filter fun name => !isKnownElement name).map
      .descElement)).result = .ok () ∧
    (mode = .field → d.result = none → (r.report location .descFieldType).result = .ok ()) ∧
      States mode node d := by
  obtain ⟨name, owner, result, desc⟩ := d
  rw [read]
  by_cases hdesc : node.desc = Vocabulary.descType
  · simp only [ne_eq, hdesc, not_true, if_false, Attempt.bind_eq_ok, readName_eq_ok,
      readOwner_eq_ok, readResult_eq_ok, readDesc_eq_ok, Attempt.answer, Except.ok.injEq,
      DescReference.mk.injEq]
    constructor
    · rintro ⟨⟨⟩, hreport, _, hname, _, ⟨howner, hnamed⟩, _, hresult, _, ⟨hgap, htypes⟩, rfl, rfl,
        rfl, rfl⟩
      exact ⟨hreport, hgap, hdesc, hname, howner, hnamed, hresult, htypes⟩
    · rintro ⟨hreport, hgap, -, hname, howner, hnamed, hresult, htypes⟩
      exact ⟨(), hreport, name, hname, owner, ⟨howner, hnamed⟩, result, hresult, desc,
        ⟨hgap, htypes⟩, rfl, rfl, rfl, rfl⟩
  · simp only [ne_eq, hdesc, not_false_eq_true, if_true, illegal, Attempt.stop, reduceCtorEq,
      false_iff]
    rintro ⟨-, -, hstates⟩
    exact hdesc hstates.desc

theorem newName_eq_ok {t : TargetSet} {name : String} :
    (d.newName r location mode t).result = .ok name ↔
      d.owners t ≠ [] ∧
        ∀ owner ∈ d.owners t, rename r.naming mode ⟨owner, d.name, d.desc⟩ = name := by
  rw [newName, Attempt.bind_eq_ok]
  constructor
  · rintro ⟨found, hfound, h⟩
    cases found with
    | none => cases h
    | some found =>
      cases h
      obtain ⟨hall, hsome⟩ := agree_eq_ok.1 hfound
      refine ⟨?_, fun owner howner => ?_⟩
      · rcases hsome with hsome | ⟨owner, howner, -⟩
        · cases hsome
        · exact List.ne_nil_of_mem howner
      · rcases hall owner howner with hvote | hvote
        · cases hvote
        · cases hvote
          rfl
  · rintro ⟨hne, hall⟩
    obtain ⟨owner, howner⟩ := List.exists_mem_of_ne_nil _ hne
    refine ⟨some name, agree_eq_ok.2 ⟨fun owner howner => .inr ?_, .inr ⟨owner, howner, ?_⟩⟩, rfl⟩
    · rw [← hall owner howner]
      rfl
    · rw [← hall owner howner]
      rfl

end DescReference

end MixinNaming
