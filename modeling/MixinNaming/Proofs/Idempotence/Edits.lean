import MixinNaming.Proofs.Frame.Edits
/-! Edits that have nothing left to do once they are through: made again on their own result they
complete and leave it as it is. What is put together of such edits is one of them. -/
namespace MixinNaming

open Annotation (editElements)

variable {α β : Type}

namespace Edit

structure Leaves (e : Edit α) (a : α) : Prop where
  fault : e.fault = none
  value : e.value = a

/-- Where it completes, it leaves its own result as it is. -/
def Idempotent (f : α → Edit α) : Prop :=
  ∀ a, (f a).fault = none → (f (f a).value).Leaves (f a).value

namespace Leaves

variable {a : α}

theorem keep (a : α) : (Edit.keep a).Leaves a := ⟨rfl, rfl⟩

theorem map {e : Edit α} (h : e.Leaves a) (f : α → β) : (e.map f).Leaves (f a) :=
  ⟨h.fault, congrArg f h.value⟩

theorem andThen {e : Edit α} {f : α → Edit α} (he : e.Leaves a) (hf : (f a).Leaves a) :
    (e.andThen f).Leaves a := by
  rw [andThen_of_none he.fault, he.value]
  exact ⟨hf.fault, hf.value⟩

theorem given {x : Attempt β} {b : β} {f : β → Edit α} (hx : x.result = .ok b)
    (hf : (f b).Leaves a) (c : α) : (Edit.given x c f).Leaves a :=
  ⟨given_fault_eq_none.2 ⟨b, hx, hf.fault⟩, (given_value hx c f).trans hf.value⟩

theorem replace {x : Attempt β} {b : β} {put : β → α} (hx : x.result = .ok b) (hput : put b = a)
    (c : α) : (Edit.replace x c put).Leaves a :=
  .given hx ⟨rfl, hput⟩ c

theorem check {x : Attempt Unit} (hx : x.result = .ok ()) (a : α) : (Edit.check x a).Leaves a :=
  .replace hx rfl a

theorem cons {f : Nat → α → Edit α} {start : Nat} {rest : List α} (ha : (f start a).Leaves a)
    (hrest : (Edit.eachFrom f (start + 1) rest).Leaves rest) :
    (Edit.eachFrom f start (a :: rest)).Leaves (a :: rest) := by
  rcases eachFrom_cons_cases f start a rest with ⟨x, hx, -⟩ | ⟨-, heq⟩
  · cases ha.fault.symm.trans hx
  · rw [heq, ha.value, hrest.value]
    exact ⟨hrest.fault, rfl⟩

end Leaves

theorem check_fault_eq_none {x : Attempt Unit} {a : α} :
    (check x a).fault = none ↔ x.result = .ok () := by
  rw [check, replace, given_fault_eq_none]
  constructor
  · rintro ⟨⟨⟩, hx, -⟩
    exact hx
  · intro hx
    exact ⟨(), hx, rfl⟩

/-- Items that are left as they are make up the same list. -/
theorem value_each {f : α → Edit α} {items : List α}
    (hf : ∀ a ∈ items, (f a).fault = none → (f a).value = a) (h : (each f items).fault = none) :
    (each f items).value = items := by
  have hsame : ∀ a ∈ items, (f a).value = a :=
    fun a ha => hf a ha (each_fault_eq_none.1 h a ha)
  have hedited := congrArg Edit.value (each_of_completed h)
  dsimp only at hedited
  rwa [List.map_congr_left hsame, List.map_id'] at hedited

namespace Idempotent

theorem of_value {f : α → Edit α} (h : ∀ a, (f a).fault = none → (f a).value = a) :
    Idempotent f := by
  intro a ha
  rw [h a ha]
  exact ⟨ha, h a ha⟩

/-- One edit may be taken for another where they agree on a value and on what becomes of it. -/
theorem leaves_of_eq {f g : α → Edit α} (hg : Idempotent g) {a : α} (ha : f a = g a)
    (hagain : f (g a).value = g (g a).value) (h : (f a).fault = none) :
    (f (f a).value).Leaves (f a).value := by
  rw [ha] at h ⊢
  rw [hagain]
  exact hg a h

theorem given {x : Attempt β} {f : β → α → Edit α} (hf : ∀ b, Idempotent (f b)) :
    Idempotent fun a => Edit.given x a fun b => f b a := by
  intro a ha
  obtain ⟨b, hb, ha⟩ := given_fault_eq_none.1 ha
  have hvalue : (Edit.given x a fun b => f b a).value = (f b a).value := given_value hb a _
  rw [hvalue]
  exact .given hb (hf b a ha) _

theorem keep : Idempotent (Edit.keep : α → Edit α) := .of_value fun _ _ => rfl

theorem check (x : Attempt Unit) : Idempotent (Edit.check x : α → Edit α) :=
  .of_value fun a _ => value_check x a

theorem eachFrom {f : Nat → α → Edit α} (h : ∀ i, Idempotent (f i)) (start : Nat) :
    Idempotent (Edit.eachFrom f start) := by
  intro items hitems
  induction items generalizing start with
  | nil => exact .keep []
  | cons a rest ih =>
    rcases eachFrom_cons_cases f start a rest with ⟨x, hx, heq⟩ | ⟨hnone, heq⟩
    · rw [heq, map, hx] at hitems
      cases hitems
    · rw [heq] at hitems ⊢
      exact .cons (h start a hnone) (ih (start + 1) hitems)

theorem each {f : α → Edit α} (h : Idempotent f) : Idempotent (Edit.each f) :=
  eachFrom (fun _ => h) 0

theorem atIndex {f : α → Edit α} (h : Idempotent f) (index : Nat) :
    Idempotent (Edit.atIndex index f) := by
  intro items hitems
  cases hitem : items[index]? with
  | none =>
    have hkeep : Edit.atIndex index f items = .keep items := by rw [Edit.atIndex, hitem]
    rw [hkeep]
    change (Edit.atIndex index f items).Leaves items
    rw [hkeep]
    exact .keep items
  | some a =>
    have hedit : Edit.atIndex index f items = (f a).map (items.set index) := by
      rw [Edit.atIndex, hitem]
    rw [hedit] at hitems ⊢
    change (Edit.atIndex index f (items.set index (f a).value)).Leaves
      (items.set index (f a).value)
    obtain ⟨hindex, -⟩ := List.getElem?_eq_some_iff.1 hitem
    have hset : (items.set index (f a).value)[index]? = some (f a).value :=
      List.getElem?_set_self hindex
    have hagain := (h a hitems).map ((items.set index (f a).value).set index)
    rw [List.set_set] at hagain
    rwa [Edit.atIndex, hset]

/-- A part of a whole is edited where it stands, in a way that may depend on the rest. -/
theorem part (get : β → α) (put : β → α → β) {f : β → α → Edit α} (hf : ∀ b, Idempotent (f b))
    (hget : ∀ b a, get (put b a) = a) (hput : ∀ b a, put (put b a) a = put b a)
    (hsame : ∀ b a, f (put b a) = f b) : Idempotent fun b => (f b (get b)).map (put b) := by
  intro b hb
  have hagain := (hf b (get b) hb).map (put (put b (f b (get b)).value))
  rw [hput] at hagain
  change ((f (put b (f b (get b)).value) (get (put b (f b (get b)).value))).map
    (put (put b (f b (get b)).value))).Leaves (put b (f b (get b)).value)
  rwa [hget, hsame]

theorem editElements {f : String → AnnotationValue → Edit AnnotationValue}
    (h : ∀ name, Idempotent (f name)) : Idempotent (editElements f) := by
  have helement : Idempotent fun e : String × AnnotationValue =>
      (f e.1 e.2).map fun v => (e.1, v) :=
    part Prod.snd (fun e v => (e.1, v)) (fun e => h e.1) (fun _ _ => rfl) (fun _ _ => rfl)
      fun _ _ => rfl
  exact part Annotation.elements (fun a elements => { a with elements }) (fun _ => each helement)
    (fun _ _ => rfl) (fun _ _ => rfl) fun _ _ => rfl

/-- The items of a list position, as long as none of them becomes a list itself. -/
theorem items {f : Nat → AnnotationValue → Edit AnnotationValue} (h : ∀ i, Idempotent (f i))
    (hflat : ∀ i x, (f i x).fault = none → (f i x).value.array? = none) :
    Idempotent fun v : AnnotationValue => (eachIndexed f v.items).map v.withItems := by
  intro v hv
  have hedited : List.Forall₂ (fun _ y => y.array? = none) v.items
      (eachIndexed f v.items).value :=
    forall₂_of_completed (fun i x _ => hflat i x) hv
  have hagain := (eachFrom h 0 v.items hv).map
    (v.withItems (eachIndexed f v.items).value).withItems
  have hitems := AnnotationValue.items_withItems_of_forall₂ hedited fun _ _ hy => hy
  have hself := (v.withItems (eachIndexed f v.items).value).withItems_items
  rw [hitems] at hself
  change ((eachIndexed f (v.withItems (eachIndexed f v.items).value).items).map
    (v.withItems (eachIndexed f v.items).value).withItems).Leaves
      (v.withItems (eachIndexed f v.items).value)
  rw [hitems]
  exact ⟨hagain.fault, hagain.value.trans hself⟩

end Idempotent

end Edit

end MixinNaming
