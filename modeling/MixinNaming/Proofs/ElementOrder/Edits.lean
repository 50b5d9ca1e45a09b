import MixinNaming.Proofs.ElementOrder.Arrangement
/-! Runs over the same parts in another order. They complete together, they come to values that are
moved against each other like the parts, and the same happens on the way, if in another order. Runs
that are stopped may be stopped at different parts, so nothing more is asked of them. -/
namespace MixinNaming

open Annotation (arrange_eq)

variable {α β : Type}

namespace Attempt

structure Matches (x y : Attempt α) : Prop where
  answers : ∀ a, y.result = .ok a ↔ x.result = .ok a
  events : ∀ a, x.result = .ok a → y.events.Perm x.events

theorem Matches.refl (x : Attempt α) : x.Matches x := ⟨fun _ => Iff.rfl, fun _ _ => .refl _⟩

theorem Matches.ite {c : Prop} [Decidable c] {x x' y y' : Attempt α} (h : c → x.Matches y)
    (h' : ¬c → x'.Matches y') : (if c then x else x').Matches (if c then y else y') := by
  by_cases hc : c
  · rw [if_pos hc, if_pos hc]
    exact h hc
  · rw [if_neg hc, if_neg hc]
    exact h' hc

theorem Matches.bind {x y : Attempt α} {f g : α → Attempt β} (hx : x.Matches y)
    (hf : ∀ a, x.result = .ok a → (f a).Matches (g a)) : (x.bind f).Matches (y.bind g) := by
  constructor
  · intro b
    rw [bind_eq_ok, bind_eq_ok]
    constructor
    · rintro ⟨a, ha, hb⟩
      have ha' := (hx.answers a).1 ha
      exact ⟨a, ha', ((hf a ha').answers b).1 hb⟩
    · rintro ⟨a, ha, hb⟩
      exact ⟨a, (hx.answers a).2 ha, ((hf a ha).answers b).2 hb⟩
  · intro b hb
    obtain ⟨a, ha, hb⟩ := bind_eq_ok.1 hb
    rw [Attempt.bind, Attempt.bind, ha, (hx.answers a).2 ha]
    exact (hx.events a ha).append ((hf a ha).events b hb)

end Attempt

namespace Edit

/-- The second completes if the first does. Then its value is the moved one, and the same happens on
the way. -/
structure Matches (move : α → α) (x y : Edit α) : Prop where
  completes : y.fault = none ↔ x.fault = none
  value : x.fault = none → y.value = move x.value
  events : x.fault = none → y.events.Perm x.events

namespace Matches

variable {move : α → α} {x y z : Edit α} {a b : α}

theorem keep (h : b = move a) : Matches move (.keep a) (.keep b) :=
  ⟨Iff.rfl, fun _ => h, fun _ => .refl _⟩

theorem of_stopped {f g : Fault} (hx : x.fault = some f) (hy : y.fault = some g) :
    Matches move x y := by
  have hne : x.fault ≠ none := by
    rw [hx]
    nofun
  have hne' : y.fault ≠ none := by
    rw [hy]
    nofun
  exact ⟨iff_of_false hne' hne, fun h => absurd h hne, fun h => absurd h hne⟩

theorem stop (a b : α) (f g : Fault) : Matches move (.stop a f) (.stop b g) := of_stopped rfl rfl

/-- One run stands for both if it comes to a value that cannot be moved. -/
theorem refl (h : x.fault = none → move x.value = x.value) : Matches move x x :=
  ⟨Iff.rfl, fun hx => (h hx).symm, fun _ => .refl _⟩

/-- The two take the same branch. -/
theorem ite {c : Prop} [Decidable c] {x' y' : Edit α} (h : c → Matches move x y)
    (h' : ¬c → Matches move x' y') : Matches move (if c then x else x') (if c then y else y') := by
  by_cases hc : c
  · rw [if_pos hc, if_pos hc]
    exact h hc
  · rw [if_neg hc, if_neg hc]
    exact h' hc

theorem trans {next : α → α} (h : Matches move x y) (h' : Matches next y z) :
    Matches (fun a => next (move a)) x z where
  completes := h'.completes.trans h.completes
  value hx := by rw [h'.value (h.completes.2 hx), h.value hx]
  events hx := (h'.events (h.completes.2 hx)).trans (h.events hx)

theorem map {moveWhole : β → β} {f g : α → β} (h : Matches move x y)
    (hfg : x.fault = none → g (move x.value) = moveWhole (f x.value)) :
    Matches moveWhole (x.map f) (y.map g) where
  completes := h.completes
  value hx := (congrArg g (h.value hx)).trans (hfg hx)
  events hx := h.events hx

theorem given {p q : Attempt β} {f g : β → Edit α} (hp : p.Matches q)
    (hf : ∀ b, p.result = .ok b → Matches move (f b) (g b)) :
    Matches move (.given p a f) (.given q b g) := by
  constructor
  · rw [given_fault_eq_none, given_fault_eq_none]
    constructor
    · rintro ⟨c, hc, hfault⟩
      have hc' := (hp.answers c).1 hc
      exact ⟨c, hc', (hf c hc').completes.1 hfault⟩
    · rintro ⟨c, hc, hfault⟩
      exact ⟨c, (hp.answers c).2 hc, (hf c hc).completes.2 hfault⟩
  · intro hx
    obtain ⟨c, hc, hfault⟩ := given_fault_eq_none.1 hx
    rw [given_value hc, given_value ((hp.answers c).2 hc)]
    exact (hf c hc).value hfault
  · intro hx
    obtain ⟨c, hc, hfault⟩ := given_fault_eq_none.1 hx
    rw [Edit.given, Edit.given, hc, (hp.answers c).2 hc]
    exact (hp.events c hc).append ((hf c hc).events hfault)

theorem check {p q : Attempt Unit} (hp : p.Matches q) (h : b = move a) :
    Matches move (.check p a) (.check q b) :=
  .given hp fun _ _ => .keep h

/-- What comes next has to match only where the first part leads to. -/
theorem andThen {f g : α → Edit α} (h : Matches move x y)
    (hf : x.fault = none → Matches move (f x.value) (g (move x.value))) :
    Matches move (x.andThen f) (y.andThen g) := by
  cases hx : x.fault with
  | some fault =>
    have hy : y.fault ≠ none := by
      intro hy
      rw [h.completes.1 hy] at hx
      cases hx
    obtain ⟨other, hy⟩ := Option.ne_none_iff_exists'.1 hy
    rw [andThen_of_some hx, andThen_of_some hy]
    exact h
  | none =>
    have hnext := hf hx
    rw [andThen_of_none hx, andThen_of_none (h.completes.2 hx), h.value hx]
    exact ⟨hnext.completes, hnext.value, fun hfault => (h.events hx).append (hnext.events hfault)⟩

theorem eachFrom {f g : Nat → α → Edit α} {moves : Nat → α → α} {items : List α}
    (h : ∀ i, ∀ a ∈ items, Matches (moves i) (f i a) (g i (moves i a))) (start : Nat) :
    Matches (fun items => (items.zipIdx start).map fun p => moves p.2 p.1)
      (.eachFrom f start items)
      (.eachFrom g start ((items.zipIdx start).map fun p => moves p.2 p.1)) := by
  induction items generalizing start with
  | nil => exact .keep rfl
  | cons a rest ih =>
    have ha := h start a List.mem_cons_self
    have hrest := ih (fun i b hb => h i b (List.mem_cons_of_mem a hb)) (start + 1)
    rw [List.zipIdx_cons, List.map_cons]
    rcases eachFrom_cons_cases f start a rest with ⟨x, hx, heq⟩ | ⟨hx, heq⟩
    · rcases eachFrom_cons_cases g start (moves start a)
        ((rest.zipIdx (start + 1)).map fun p => moves p.2 p.1) with ⟨y, hy, heq'⟩ | ⟨hy, -⟩
      · rw [heq, heq']
        exact of_stopped hx hy
      · rw [ha.completes.1 hy] at hx
        cases hx
    · rcases eachFrom_cons_cases g start (moves start a)
        ((rest.zipIdx (start + 1)).map fun p => moves p.2 p.1) with ⟨y, hy, -⟩ | ⟨-, heq'⟩
      · rw [ha.completes.2 hx] at hy
        cases hy
      · rw [heq, heq']
        refine ⟨hrest.completes, fun hfault => ?_, fun hfault => ?_⟩
        · dsimp only
          rw [ha.value hx, hrest.value hfault, List.zipIdx_cons, List.map_cons]
        · exact (ha.events hx).append (hrest.events hfault)

/-- Items that are edited in another order are each edited as before. -/
theorem shuffle (s : Shuffle) (f : α → Edit α) (items : List α) :
    Matches s.apply (.each f items) (.each f (s.apply items)) := by
  have hcompletes : (Edit.each f (s.apply items)).fault = none ↔
      (Edit.each f items).fault = none := by
    rw [each_fault_eq_none, each_fault_eq_none]
    exact forall_congr' fun a => imp_congr_left Shuffle.mem_apply
  refine ⟨hcompletes, fun hx => ?_, fun hx => ?_⟩
  · rw [each_of_completed hx, each_of_completed (hcompletes.2 hx)]
    exact s.map_apply _ items
  · rw [each_of_completed hx, each_of_completed (hcompletes.2 hx)]
    exact (s.apply_perm items).flatMap_right _

variable {ρ : Arrangement}

theorem editElements {f g : String → AnnotationValue → Edit AnnotationValue} (a : Annotation)
    (h : ∀ i, ∀ e ∈ a.elements, Matches (·.arrange (ρ.inside i)) (f e.1 e.2)
      (g e.1 (e.2.arrange (ρ.inside i)))) :
    Matches (·.arrange ρ) (a.editElements f) ((a.arrange ρ).editElements g) := by
  have hplace : ∀ i, ∀ e ∈ a.elements, Matches (arrangeElement ρ i)
      ((f e.1 e.2).map fun v => (e.1, v))
      ((g e.1 (arrangeElement ρ i e).2).map fun v => (e.1, v)) :=
    fun i e he => (h i e he).map fun _ => rfl
  have helements := (eachFrom (f := fun _ e => (f e.1 e.2).map fun v => (e.1, v))
    (g := fun _ e => (g e.1 e.2).map fun v => (e.1, v)) hplace 0).trans (shuffle (ρ []) _ _)
  unfold Annotation.editElements
  rw [arrange_eq]
  refine helements.map fun _ => ?_
  rw [arrange_eq]

/-- The items of a list position, which may hold annotations. -/
theorem items {f g : Nat → AnnotationValue → Edit AnnotationValue} (v : AnnotationValue)
    (h : ∀ i, ∀ x ∈ v.items, Matches (·.arrange (ρ.within v i)) (f i x)
      (g i (x.arrange (ρ.within v i)))) :
    Matches (·.arrange ρ) ((eachIndexed f v.items).map v.withItems)
      ((eachIndexed g (v.arrange ρ).items).map (v.arrange ρ).withItems) := by
  rw [AnnotationValue.items_arrange]
  exact (eachFrom h 0).map fun _ => AnnotationValue.withItems_arrange v ρ _

theorem nested {x y : Edit Annotation} (h : Matches (·.arrange ρ) x y) :
    Matches (·.arrange ρ) (x.map AnnotationValue.nested) (y.map AnnotationValue.nested) :=
  h.map fun _ => rfl

end Matches

end Edit

end MixinNaming
