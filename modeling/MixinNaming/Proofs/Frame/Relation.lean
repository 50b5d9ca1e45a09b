import Mathlib.Data.List.Forall2
import MixinNaming.Handler.Catalogue
/-! What may become of an annotation. Rules write other texts and other class literals into the
elements that they edit; all else keeps its value and its place. -/
namespace MixinNaming

/-- Whether some rule edits the element of an annotation of that type in place. -/
def isEditable (desc name : String) : Bool :=
  if desc = Vocabulary.descType then name ∈ ["value", "owner", "ret"]
  else if desc = Vocabulary.atType then name ∈ ["args", "target", "desc"]
  else if desc = Vocabulary.sliceType then name ∈ ["from", "to"]
  else if desc = Vocabulary.mixin then name ∈ ["value", "targets"]
  else
    match AnnotationKind.ofDescriptor? desc with
    | some .shadow | some .overwrite => name = "aliases"
    | some (.injector kind) =>
      match kind.rules.rule? name with
      | none | some .unchanged => false
      | some _ => true
    | _ => false

mutual

/-- The value before and after: another text or class literal, or the like further inside. -/
inductive ValueFrame : AnnotationValue → AnnotationValue → Prop where
  | same (v : AnnotationValue) : ValueFrame v v
  | string (written renamed : String) : ValueFrame (.string written) (.string renamed)
  | type (written renamed : ClassLiteral) : ValueFrame (.type written) (.type renamed)
  | nested {a b : Annotation} (h : NodeFrame a b) : ValueFrame (.nested a) (.nested b)
  | array {items others : List AnnotationValue} (h : ItemsFrame items others) :
      ValueFrame (.array items) (.array others)

inductive ItemsFrame : List AnnotationValue → List AnnotationValue → Prop where
  | nil : ItemsFrame [] []
  | cons {v w : AnnotationValue} {rest more : List AnnotationValue} (h : ValueFrame v w)
      (hrest : ItemsFrame rest more) : ItemsFrame (v :: rest) (w :: more)

/-- The value of an element before and after. The argument types of a @Desc may be listed anew, and
then they stand in an array. -/
inductive ElementFrame : String → String → AnnotationValue → AnnotationValue → Prop where
  | fixed (desc name : String) (v : AnnotationValue) : ElementFrame desc name v v
  | edited {desc name : String} (hname : isEditable desc name = true) {v w : AnnotationValue}
      (h : ValueFrame v w) : ElementFrame desc name v w
  | arguments {v : AnnotationValue} (h : ∀ x ∈ v.items, x.type?.isSome = true)
      (types : List ClassLiteral) :
      ElementFrame Vocabulary.descType "args" v (.array (types.map .type))

inductive ElementsFrame :
    String → List (String × AnnotationValue) → List (String × AnnotationValue) → Prop where
  | nil (desc : String) : ElementsFrame desc [] []
  | cons {desc name : String} {v w : AnnotationValue} {rest more : List (String × AnnotationValue)}
      (h : ElementFrame desc name v w) (hrest : ElementsFrame desc rest more) :
      ElementsFrame desc ((name, v) :: rest) ((name, w) :: more)

inductive NodeFrame : Annotation → Annotation → Prop where
  | elements {desc : String} {elements others : List (String × AnnotationValue)}
      (h : ElementsFrame desc elements others) : NodeFrame ⟨desc, elements⟩ ⟨desc, others⟩

end

mutual

theorem ValueFrame.trans : ∀ {u v w : AnnotationValue},
    ValueFrame u v → ValueFrame v w → ValueFrame u w
  | _, _, _, .same _, h => h
  | _, _, _, .string text _, .string _ other => .string text other
  | _, _, _, .type t _, .type _ other => .type t other
  | _, _, _, .nested hab, .nested hbc => .nested (hab.trans hbc)
  | _, _, _, .array huv, .array hvw => .array (huv.trans hvw)
  | _, _, _, h, .same _ => h

theorem ItemsFrame.trans : ∀ {us vs ws : List AnnotationValue},
    ItemsFrame us vs → ItemsFrame vs ws → ItemsFrame us ws
  | _, _, _, .nil, .nil => .nil
  | _, _, _, .cons huv hus, .cons hvw hvs => .cons (huv.trans hvw) (hus.trans hvs)

theorem ElementFrame.trans : ∀ {desc name : String} {u v w : AnnotationValue},
    ElementFrame desc name u v → ElementFrame desc name v w → ElementFrame desc name u w
  | _, _, _, _, _, .fixed _ _ _, h => h
  | _, _, _, _, _, .edited hname huv, .edited _ hvw => .edited hname (huv.trans hvw)
  | _, _, _, _, _, .arguments hu _, .arguments _ types => .arguments hu types
  | _, _, _, _, _, h, .fixed _ _ _ => h
  | _, _, _, _, _, .edited hname _, .arguments _ _ => absurd hname (by decide)
  | _, _, _, _, _, .arguments _ _, .edited hname _ => absurd hname (by decide)

theorem ElementsFrame.trans {desc : String} : ∀ {us vs ws : List (String × AnnotationValue)},
    ElementsFrame desc us vs → ElementsFrame desc vs ws → ElementsFrame desc us ws
  | _, _, _, .nil _, .nil _ => .nil _
  | _, _, _, .cons huv hus, .cons hvw hvs => .cons (huv.trans hvw) (hus.trans hvs)

theorem NodeFrame.trans : ∀ {a b c : Annotation}, NodeFrame a b → NodeFrame b c → NodeFrame a c
  | _, _, _, .elements hab, .elements hbc => .elements (hab.trans hbc)

end

theorem ItemsFrame.of_forall₂ {items others : List AnnotationValue}
    (h : List.Forall₂ ValueFrame items others) : ItemsFrame items others := by
  induction h with
  | nil => exact .nil
  | cons hvw _ ih => exact .cons hvw ih

theorem ElementsFrame.forall₂ {desc : String} :
    ∀ {elements others : List (String × AnnotationValue)}, ElementsFrame desc elements others →
      List.Forall₂ (fun e f => f.1 = e.1 ∧ ElementFrame desc e.1 e.2 f.2) elements others
  | _, _, .nil _ => .nil
  | _, _, .cons h hrest => .cons ⟨rfl, h⟩ hrest.forall₂

/-- The elements keep their names and their order, and each is framed for itself. -/
theorem elementsFrame_iff {desc : String} {elements others : List (String × AnnotationValue)} :
    ElementsFrame desc elements others ↔
      List.Forall₂ (fun e f => f.1 = e.1 ∧ ElementFrame desc e.1 e.2 f.2) elements others := by
  constructor
  · intro h
    exact h.forall₂
  · intro h
    induction h with
    | nil => exact .nil desc
    | @cons e f _ _ hef _ ih =>
      obtain ⟨name, v⟩ := e
      obtain ⟨other, w⟩ := f
      obtain ⟨rfl, hvw⟩ := hef
      exact .cons hvw ih

namespace ElementFrame

variable {desc name : String} {v w : AnnotationValue}

theorem eq_of_fixed (hname : isEditable desc name = false)
    (hargs : ¬(desc = Vocabulary.descType ∧ name = "args")) (h : ElementFrame desc name v w) :
    w = v := by
  cases h with
  | fixed _ _ _ => rfl
  | edited hedit _ =>
    rw [hname] at hedit
    cases hedit
  | arguments _ _ => exact absurd ⟨rfl, rfl⟩ hargs

theorem valueFrame (hname : isEditable desc name = true) (h : ElementFrame desc name v w) :
    ValueFrame v w := by
  cases h with
  | fixed _ _ _ => exact .same v
  | edited _ h => exact h
  | arguments _ _ => exact absurd hname (by decide)

end ElementFrame

namespace NodeFrame

variable {a b : Annotation} {name : String}

theorem same (a : Annotation) : NodeFrame a a := by
  obtain ⟨desc, elements⟩ := a
  exact .elements (elementsFrame_iff.2 (List.forall₂_same.2 fun e _ => ⟨rfl, .fixed desc e.1 e.2⟩))

theorem desc_eq (h : NodeFrame a b) : b.desc = a.desc := by
  cases h with
  | elements _ => rfl

theorem names_eq (h : NodeFrame a b) : b.names = a.names := by
  cases h with
  | elements h =>
    rw [elementsFrame_iff] at h
    unfold Annotation.names
    induction h with
    | nil => rfl
    | cons hef _ ih => rw [List.map_cons, List.map_cons, hef.1, ih]

/-- What is found under a name before and after. -/
theorem get? (h : NodeFrame a b) (name : String) :
    (a.get? name = none ∧ b.get? name = none) ∨
      ∃ v w, a.get? name = some v ∧ b.get? name = some w ∧ ElementFrame a.desc name v w := by
  cases h with
  | elements h =>
    rw [elementsFrame_iff] at h
    unfold Annotation.get?
    induction h with
    | nil => exact .inl ⟨rfl, rfl⟩
    | @cons e f _ _ hef _ ih =>
      by_cases hname : e.1 = name
      · refine .inr ⟨e.2, f.2, ?_, ?_, ?_⟩
        · simp [hname]
        · simp [hef.1, hname]
        · rw [← hname]
          exact hef.2
      · simp only [List.find?_cons, hef.1, beq_eq_false_iff_ne.2 hname]
        exact ih

end NodeFrame

end MixinNaming
