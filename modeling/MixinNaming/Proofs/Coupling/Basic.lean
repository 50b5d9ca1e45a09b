import MixinNaming.Agreement
import MixinNaming.Remapper
import MixinNaming.Member.Site
/-! Relations between two runs of one walk. A coupling relates attempts and edits so that runs put
together from related parts are related again; what is proved of a coupling holds of a whole walk
as soon as the few questions that the walk asks are related. -/
namespace MixinNaming

variable {α β : Type}

/-- A list of items is edited by its first item, and then by the others. -/
theorem Edit.eachFrom_cons (f : Nat → α → Edit α) (start : Nat) (a : α) (rest : List α) :
    eachFrom f start (a :: rest) =
      ((f start a).map (· :: rest)).andThen fun
        | [] => .keep []
        | b :: _ => (eachFrom f (start + 1) rest).map (b :: ·) := by
  rcases h : f start a with ⟨value, events, fault⟩
  cases fault with
  | some x => simp [eachFrom, andThen, map, h]
  | none => simp [eachFrom, andThen, map, h]

/-- A relation on attempts and on edits that all constructs of a walk respect, the decision of a
rename apart. -/
structure Congruence where
  attempts : {α : Type} → Attempt α → Attempt α → Prop
  edits : {α : Type} → Edit α → Edit α → Prop
  answer : ∀ {α : Type} (a : α), attempts (.answer a) (.answer a)
  refuse : ∀ {α : Type} (location : String) (v : Violation),
    attempts (.stop (.illegal location v) : Attempt α) (.stop (.illegal location v))
  ask : ∀ {α : Type} (q : Query) (a : α), attempts ⟨[.query q], .ok a⟩ ⟨[.query q], .ok a⟩
  bind : ∀ {α β : Type} {x y : Attempt α} {f g : α → Attempt β},
    attempts x y → (∀ a, attempts (f a) (g a)) → attempts (x.bind f) (y.bind g)
  keep : ∀ {α : Type} (a : α), edits (.keep a) (.keep a)
  given : ∀ {α β : Type} {x y : Attempt β} (a : α) {f g : β → Edit α},
    attempts x y → (∀ b, edits (f b) (g b)) → edits (.given x a f) (.given y a g)
  map : ∀ {α β : Type} (f : α → β) {d e : Edit α}, edits d e → edits (d.map f) (e.map f)
  andThen : ∀ {α : Type} {d e : Edit α} {f g : α → Edit α},
    edits d e → (∀ a, edits (f a) (g a)) → edits (d.andThen f) (e.andThen g)

structure Coupling extends Congruence where
  rename : ∀ (site : Site) (newName : String),
    attempts (Remapper.decideRename site newName) (Remapper.decideRename site newName)

instance : Coe Coupling Congruence := ⟨Coupling.toCongruence⟩

def Coupling.equal : Coupling where
  attempts := Eq
  edits := Eq
  answer _ := rfl
  refuse _ _ := rfl
  ask _ _ := rfl
  rename _ _ := rfl
  bind hx hf := by rw [hx, funext hf]
  keep _ := rfl
  given a _ _ hx hf := by rw [hx, funext hf]
  map _ _ _ h := by rw [h]
  andThen hd hf := by rw [hd, funext hf]

namespace Congruence

variable (C : Congruence)

theorem ofExcept (location : String) (e : Except DescriptorError α) :
    C.attempts (.ofExcept (e.mapError fun e => .illegal location (.descriptor e)))
      (.ofExcept (e.mapError fun e => .illegal location (.descriptor e))) := by
  cases e with
  | error e => exact C.refuse location (.descriptor e)
  | ok a => exact C.answer a

theorem stop (a : α) (location : String) (v : Violation) :
    C.edits (.stop a (.illegal location v)) (.stop a (.illegal location v)) :=
  C.given a (C.refuse (α := α) location v) C.keep

theorem replace {x y : Attempt β} (a : α) (put : β → α) (h : C.attempts x y) :
    C.edits (.replace x a put) (.replace y a put) :=
  C.given a h fun b => C.keep (put b)

theorem check {x y : Attempt Unit} (a : α) (h : C.attempts x y) :
    C.edits (.check x a) (.check y a) :=
  C.replace a (fun _ => a) h

theorem eachFrom {f g : Nat → α → Edit α} (h : ∀ i a, C.edits (f i a) (g i a)) (start : Nat)
    (items : List α) : C.edits (.eachFrom f start items) (.eachFrom g start items) := by
  induction items generalizing start with
  | nil => exact C.keep []
  | cons a rest ih =>
    rw [Edit.eachFrom_cons, Edit.eachFrom_cons]
    refine C.andThen (C.map _ (h start a)) fun items => ?_
    cases items with
    | nil => exact C.keep []
    | cons b _ => exact C.map _ (ih (start + 1))

theorem each {f g : α → Edit α} (h : ∀ a, C.edits (f a) (g a)) (items : List α) :
    C.edits (.each f items) (.each g items) :=
  C.eachFrom (fun _ => h) 0 items

theorem eachIndexed {f g : Nat → α → Edit α} (h : ∀ i a, C.edits (f i a) (g i a))
    (items : List α) : C.edits (.eachIndexed f items) (.eachIndexed g items) :=
  C.eachFrom h 0 items

theorem atIndex {f g : α → Edit α} (h : ∀ a, C.edits (f a) (g a)) (index : Nat)
    (items : List α) : C.edits (.atIndex index f items) (.atIndex index g items) := by
  rw [Edit.atIndex, Edit.atIndex]
  cases items[index]? with
  | none => exact C.keep items
  | some a => exact C.map _ (h a)

theorem editElements {f g : String → AnnotationValue → Edit AnnotationValue}
    (h : ∀ name v, C.edits (f name v) (g name v)) (a : Annotation) :
    C.edits (a.editElements f) (a.editElements g) :=
  C.map _ (C.each (fun e => C.map _ (h e.1 e.2)) a.elements)

/-- A vote is coupled with itself as soon as its ballots are; a torn vote is never a gap. -/
theorem agreeFrom [DecidableEq β] {vote ballot : α → Attempt (Option β)}
    (h : ∀ a, C.attempts (vote a) (ballot a)) (location : String) (torn : β → β → Violation)
    (found : Option β) (candidates : List α) :
    C.attempts (agreeFrom vote (fun b c => .illegal location (torn b c)) found candidates)
      (agreeFrom ballot (fun b c => .illegal location (torn b c)) found candidates) := by
  induction candidates generalizing found with
  | nil => exact C.answer found
  | cons a rest ih =>
    refine C.bind (h a) fun cast => ?_
    match found, cast with
    | found, none => exact ih found
    | none, some b => exact ih (some b)
    | some first, some b =>
      by_cases heq : first = b
      · simp only [heq, if_true]
        exact ih (some b)
      · simp only [heq, if_false]
        exact C.refuse location (torn first b)

theorem agree [DecidableEq β] {vote ballot : α → Attempt (Option β)}
    (h : ∀ a, C.attempts (vote a) (ballot a)) (location : String) (torn : β → β → Violation)
    (candidates : List α) :
    C.attempts (agree vote (fun b c => .illegal location (torn b c)) candidates)
      (agree ballot (fun b c => .illegal location (torn b c)) candidates) :=
  C.agreeFrom h location torn none candidates

/-- Runs on which nothing happens that `pick` picks out. -/
def without {γ : Type} (pick : Event → Option γ) (hquery : ∀ q, pick (.query q) = none) :
    Congruence where
  attempts x _ := x.events.filterMap pick = []
  edits d _ := d.events.filterMap pick = []
  answer _ := rfl
  refuse _ _ := rfl
  ask q _ := by rw [List.filterMap_cons_none (hquery q), List.filterMap_nil]
  bind {α β x y f g} hx hf := by
    obtain ⟨events, result⟩ := x
    cases result with
    | error e => exact hx
    | ok a => exact List.filterMap_append.trans (List.append_eq_nil_iff.2 ⟨hx, hf a⟩)
  keep _ := rfl
  given {α β x y} a {f g} hx hf := by
    obtain ⟨events, result⟩ := x
    cases result with
    | error e => exact hx
    | ok b => exact List.filterMap_append.trans (List.append_eq_nil_iff.2 ⟨hx, hf b⟩)
  map _ _ _ h := h
  andThen {α d e f g} hd hf := by
    obtain ⟨a, events, fault⟩ := d
    cases fault with
    | some x => exact hd
    | none => exact List.filterMap_append.trans (List.append_eq_nil_iff.2 ⟨hd, hf a⟩)

def silent : Congruence := .without Event.rename? fun _ => rfl

def ungapped : Congruence := .without Event.gap? fun _ => rfl

end Congruence

end MixinNaming
