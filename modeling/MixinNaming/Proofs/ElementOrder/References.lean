import MixinNaming.Proofs.Desc.Arguments
import MixinNaming.Proofs.ElementOrder.Edits
import MixinNaming.Proofs.Frame.References
/-! References to members in annotations whose elements stand in another order. A @Desc is read by
the names of its elements, and written back where they stand; only the gaps for elements that nobody
knows are reported in the order in which they stand. -/
namespace MixinNaming

open Annotation (contains_arrange contains_eq_true mem_names_of_get? names_arrange
  names_set set_arrange_of_fixed)
open Edit (Matches)

variable {r : Remapper} {location : String} {t : TargetSet} {mode : DescMode} {node : Annotation}
  {ρ : Arrangement}

section Reports

theorem Remapper.reportEach_eq_ok {features : List Feature} {u : Unit} :
    (r.reportEach location features).result = .ok u ↔
      ∀ feature ∈ features, r.policy.refusal ⟨location, feature⟩ = none := by
  induction features with
  | nil => simp [reportEach, Attempt.answer]
  | cons feature rest ih =>
    rw [reportEach, Attempt.bind_eq_ok, List.forall_mem_cons]
    simp only [ih]
    cases hrefusal : r.policy.refusal ⟨location, feature⟩ with
    | none => simp [report_of_passed hrefusal]
    | some f => simp [report_of_refused hrefusal]

theorem Remapper.events_reportEach {features : List Feature} {u : Unit}
    (h : (r.reportEach location features).result = .ok u) :
    (r.reportEach location features).events =
      features.map fun feature => .gap ⟨location, feature⟩ := by
  induction features with
  | nil => rfl
  | cons feature rest ih =>
    obtain ⟨⟨⟩, hfirst, hrest⟩ := Attempt.bind_eq_ok.1 h
    rw [reportEach, Attempt.bind, hfirst, List.map_cons, ← ih hrest]
    rfl

/-- The gaps of an annotation are all tolerated or not, in whatever order they are reported. -/
theorem Remapper.reportEach_matches {features others : List Feature}
    (h : features.Perm others) :
    (r.reportEach location features).Matches (r.reportEach location others) := by
  constructor
  · intro u
    rw [reportEach_eq_ok, reportEach_eq_ok]
    exact forall_congr' fun feature => imp_congr_left h.mem_iff.symm
  · intro u hu
    have hall := reportEach_eq_ok.1 hu
    have hothers : (r.reportEach location others).result = .ok () :=
      reportEach_eq_ok.2 fun feature hfeature => hall feature (h.mem_iff.2 hfeature)
    rw [events_reportEach hu, events_reportEach hothers]
    exact (h.map _).symm

theorem Remapper.reportNames_matches (p : String → Bool) (f : String → Feature)
    (node : Annotation) (ρ : Arrangement) :
    (r.reportEach location ((node.names.filter p).map f)).Matches
      (r.reportEach location (((node.arrange ρ).names.filter p).map f)) :=
  reportEach_matches (((names_arrange node ρ).symm.filter p).map f)

end Reports

namespace DescReference

variable {d : DescReference}

section Reading

theorem readLiteral_arrange (element : String) (v : AnnotationValue) :
    readLiteral location element (v.arrange ρ) = readLiteral location element v := by
  cases v with
  | _ => rfl

theorem readArguments_arrange (places : Nat → Arrangement) (items : List AnnotationValue)
    (start : Nat) :
    readArguments location ((items.zipIdx start).map fun p => p.1.arrange (places p.2)) =
      readArguments location items := by
  induction items generalizing start with
  | nil => rfl
  | cons v rest ih =>
    rw [List.zipIdx_cons, List.map_cons, readArguments, readArguments, readLiteral_arrange, ih]

variable (hnames : node.names.Nodup) (ρ)
include hnames

theorem readName_arrange : readName location (node.arrange ρ) = readName location node := by
  obtain ⟨i, hi⟩ := Annotation.exists_get?_arrange hnames ρ "value"
  rw [readName, readName, hi]
  cases node.get? "value" with
  | none => rfl
  | some v =>
    cases v with
    | _ => rfl

theorem readOwner_arrange : readOwner location (node.arrange ρ) = readOwner location node := by
  obtain ⟨i, hi⟩ := Annotation.exists_get?_arrange hnames ρ "owner"
  rw [readOwner, readOwner, hi]
  cases node.get? "owner" with
  | none => rfl
  | some v =>
    rw [Option.map_some]
    dsimp only
    rw [readLiteral_arrange]

theorem readResult_arrange : readResult location (node.arrange ρ) = readResult location node := by
  obtain ⟨i, hi⟩ := Annotation.exists_get?_arrange hnames ρ "ret"
  rw [readResult, readResult, hi]
  cases node.get? "ret" with
  | none => rfl
  | some v =>
    rw [Option.map_some]
    dsimp only
    rw [readLiteral_arrange]

theorem readDesc_arrange (result : Option String) :
    readDesc r location mode (node.arrange ρ) result = readDesc r location mode node result := by
  cases mode with
  | field =>
    cases result with
    | none => rfl
    | some type => rfl
  | method =>
    obtain ⟨i, hi⟩ := Annotation.exists_get?_arrange hnames ρ "args"
    unfold readDesc
    dsimp only
    rw [hi]
    cases node.get? "args" with
    | none => rfl
    | some v =>
      rw [Option.map_some]
      dsimp only
      rw [AnnotationValue.items_arrange, readArguments_arrange]

end Reading

theorem read_matches (hnames : node.desc = Vocabulary.descType → node.names.Nodup)
    (ρ : Arrangement) :
    (read r location mode node).Matches (read r location mode (node.arrange ρ)) := by
  rw [read, read, Annotation.desc_arrange]
  refine .ite (fun _ => .refl _) fun hdesc => ?_
  have hdistinct := hnames (not_not.1 hdesc)
  refine .bind (Remapper.reportNames_matches _ _ node ρ) fun _ _ => ?_
  rw [readName_arrange ρ hdistinct, readOwner_arrange ρ hdistinct, readResult_arrange ρ hdistinct]
  simp only [readDesc_arrange ρ hdistinct]
  exact .refl _

section Writing

variable (hnames : node.names.Nodup)
include hnames

theorem putTypes_arrange (hret : d.result.isSome = true → "ret" ∈ node.names)
    (arguments : List String) (result : String) :
    d.putTypes arguments result (node.arrange ρ) =
      (d.putTypes arguments result node).arrange ρ := by
  have hliterals : AnnotationValue.Fixed (.array (literals arguments)) := by
    refine AnnotationValue.fixed_array fun x hx => ?_
    obtain ⟨type, -, rfl⟩ := List.mem_map.1 hx
    exact AnnotationValue.fixed_type _
  have hwritten : ∀ middle : Annotation, middle.names.Nodup →
      (if (middle.arrange ρ).contains "args" then
          (middle.arrange ρ).set "args" (.array (literals arguments)) else middle.arrange ρ) =
        (if middle.contains "args" then middle.set "args" (.array (literals arguments))
          else middle).arrange ρ := by
    intro middle hmiddle
    rw [contains_arrange]
    by_cases hargs : middle.contains "args" = true
    · rw [if_pos hargs, if_pos hargs]
      exact Annotation.set_arrange_of_fixed hmiddle (contains_eq_true.1 hargs) hliterals
    · rw [if_neg hargs, if_neg hargs]
  rw [putTypes, putTypes]
  by_cases hresult : d.result.isSome = true
  · have hset := Annotation.set_arrange_of_fixed (ρ := ρ) hnames (hret hresult)
      (AnnotationValue.fixed_type ⟨result⟩)
    rw [if_pos hresult, if_pos hresult, hset]
    refine hwritten _ ?_
    rwa [names_set (hret hresult)]
  · rw [if_neg hresult, if_neg hresult]
    exact hwritten node hnames

/-- Whether the types can be renamed does not depend on where they stand. -/
theorem renameTypes_arrange (n : Naming) (hret : d.result.isSome = true → "ret" ∈ node.names) :
    d.renameTypes n mode (node.arrange ρ) =
      (d.renameTypes n mode node).map fun typed => typed.arrange ρ := by
  cases mode with
  | field =>
    rw [renameTypes, renameTypes]
    by_cases hresult : d.result.isSome = true
    · rw [if_pos hresult, if_pos hresult]
      cases n.fieldSignature d.desc with
      | error e => rfl
      | ok type =>
        exact congrArg Except.ok (set_arrange_of_fixed hnames (hret hresult)
          (AnnotationValue.fixed_type _))
    · rw [if_neg hresult, if_neg hresult]
      rfl
  | method =>
    rw [renameTypes, renameTypes]
    cases n.methodSignature d.desc with
    | error e => rfl
    | ok desc =>
      change (Descriptor.split desc).bind _ = ((Descriptor.split desc).bind _).map _
      cases Descriptor.split desc with
      | error e => rfl
      | ok parts =>
        exact congrArg Except.ok (putTypes_arrange hnames hret parts.1 parts.2)

theorem renameOwner_arrange (n : Naming) (howner : d.owner.isSome = true → "owner" ∈ node.names) :
    d.renameOwner n (node.arrange ρ) = (d.renameOwner n node).arrange ρ := by
  rw [renameOwner, renameOwner]
  cases hd : d.owner with
  | none => rfl
  | some owner =>
    refine Annotation.set_arrange_of_fixed hnames (howner ?_) (AnnotationValue.fixed_type _)
    rw [hd]
    rfl

end Writing

end DescReference

namespace Remapper

/-- A @Desc is renamed alike in whatever order its elements stand. -/
theorem remapDesc_matches (r : Remapper) (location : String) (t : TargetSet) (mode : DescMode)
    (hnames : node.desc = Vocabulary.descType → node.names.Nodup) (ρ : Arrangement) :
    Matches (·.arrange ρ) (r.remapDesc location t mode node)
      (r.remapDesc location t mode (node.arrange ρ)) := by
  refine .given (DescReference.read_matches hnames ρ) fun d hd => ?_
  refine .given (.refl _) fun name _ => ?_
  have hread := DescReference.readFrom_of_read hd
  have hnode := hnames hread.desc
  obtain ⟨old, hold⟩ := hread.value
  have hset : (node.arrange ρ).set "value" (.string name) =
      (node.set "value" (.string name)).arrange ρ :=
    Annotation.set_arrange_of_fixed hnode (mem_names_of_get? hold)
      (AnnotationValue.fixed_string name)
  -- the elements that are written next are there whenever they are written
  have hframe := hread.frame_setName name
  have hnamed := hread.of_frame hframe
  have hnodup : (node.set "value" (.string name)).names.Nodup := by rwa [hframe.names_eq]
  have hret : d.result.isSome = true → "ret" ∈ (node.set "value" (.string name)).names := by
    intro hresult
    obtain ⟨type, htype⟩ := hnamed.result hresult
    exact Annotation.mem_names_of_get? htype
  rw [hset]
  dsimp only
  rw [DescReference.renameTypes_arrange hnodup r.naming hret]
  cases htypes : d.renameTypes r.naming mode (node.set "value" (.string name)) with
  | error e => exact .stop _ _ _ _
  | ok typed =>
    have hframe' := hnamed.frame_renameTypes htypes
    have htyped := hnamed.of_frame hframe'
    have hnodup' : typed.names.Nodup := by rwa [hframe'.names_eq]
    refine .keep (DescReference.renameOwner_arrange hnodup' r.naming fun howner => ?_)
    obtain ⟨type, htype⟩ := htyped.owner howner
    exact Annotation.mem_names_of_get? htype

theorem remapSelectorValue_matches (location : String) (filter : DescriptorFilter)
    {v : AnnotationValue} (hv : v.Distinct) (ρ : Arrangement) :
    Matches (·.arrange ρ) (r.remapSelectorValue location t filter v)
      (r.remapSelectorValue location t filter (v.arrange ρ)) := by
  cases v with
  | string text => exact .given (.refl _) fun _ _ => .keep rfl
  | nested node =>
    exact .nested (r.remapDesc_matches location t .method
      (fun hdesc => hv.names (by simp [hdesc])) ρ)
  | _ => exact .stop _ _ _ _

theorem selectorLocation_arrange (owner : String) (index : Nat) (v : AnnotationValue)
    (ρ : Arrangement) :
    selectorLocation owner index (v.arrange ρ) = selectorLocation owner index v := by
  cases v with
  | _ => rfl

theorem remapSelectorList_matches (owner : String) (filter : DescriptorFilter)
    {v : AnnotationValue} (hv : v.Distinct) (ρ : Arrangement) :
    Matches (·.arrange ρ) (r.remapSelectorList owner t filter v)
      (r.remapSelectorList owner t filter (v.arrange ρ)) := by
  refine .items v fun i x hx => ?_
  rw [selectorLocation_arrange]
  exact remapSelectorValue_matches _ filter (hv.item hx) _

end Remapper

end MixinNaming
