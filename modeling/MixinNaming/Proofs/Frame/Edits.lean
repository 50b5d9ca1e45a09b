import MixinNaming.Proofs.Frame.Relation
import MixinNaming.Proofs.ListPosition
import MixinNaming.Proofs.Outcome
import MixinNaming.Remapper
/-! Edits that stay inside a frame. It does not matter how they end: a fault leaves the value as far
as it was changed, and that is covered too. -/
namespace MixinNaming

variable {α β : Type}

namespace Edit

variable {R : α → α → Prop}

theorem value_check (x : Attempt Unit) (a : α) : (check x a).value = a := by
  rw [check, replace, given]
  split <;> rfl

theorem value_andThen (e : Edit α) (next : α → Edit α) :
    (e.andThen next).value = e.value ∨ (e.andThen next).value = (next e.value).value := by
  rw [andThen]
  split
  · exact .inl rfl
  · exact .inr rfl

theorem rel_given {x : Attempt β} {a : α} {next : β → Edit α} (hsame : R a a)
    (h : ∀ b, x.result = .ok b → R a (next b).value) : R a (given x a next).value := by
  rw [given]
  cases hx : x.result with
  | ok b => exact h b hx
  | error f => exact hsame

theorem rel_andThen {e : Edit α} {next : α → Edit α} {a : α}
    (htrans : ∀ {b c}, R a b → R b c → R a c) (he : R a e.value)
    (hnext : ∀ b, R a b → R b (next b).value) : R a (e.andThen next).value := by
  rcases value_andThen e next with heq | heq
  · rw [heq]
    exact he
  · rw [heq]
    exact htrans he (hnext e.value he)

/-- Each item of an edited list comes from the item that stood at its place. -/
theorem forall₂_eachFrom {f : Nat → α → Edit α} (hsame : ∀ a, R a a) {items : List α}
    (h : ∀ i, ∀ a ∈ items, R a (f i a).value) (start : Nat) :
    List.Forall₂ R items (eachFrom f start items).value := by
  induction items generalizing start with
  | nil => exact .nil
  | cons a rest ih =>
    have hhead := h start a List.mem_cons_self
    have htail := ih fun i b hb => h i b (List.mem_cons_of_mem a hb)
    rw [eachFrom]
    dsimp only
    split
    · exact .cons hhead (List.forall₂_same.2 fun b _ => hsame b)
    · exact .cons hhead (htail (start + 1))

theorem forall₂_each {f : α → Edit α} (hsame : ∀ a, R a a) {items : List α}
    (h : ∀ a ∈ items, R a (f a).value) : List.Forall₂ R items (each f items).value :=
  forall₂_eachFrom hsame (fun _ => h) 0

theorem forall₂_eachIndexed {f : Nat → α → Edit α} (hsame : ∀ a, R a a)
    (h : ∀ i a, R a (f i a).value) (items : List α) :
    List.Forall₂ R items (eachIndexed f items).value :=
  forall₂_eachFrom hsame (fun i a _ => h i a) 0

/-- In a list whose edit is not stopped, no item has stopped it. -/
theorem forall₂_of_completed {f : Nat → α → Edit α} {items : List α}
    (h : ∀ i, ∀ a ∈ items, (f i a).fault = none → R a (f i a).value) {start : Nat}
    (hfault : (eachFrom f start items).fault = none) :
    List.Forall₂ R items (eachFrom f start items).value := by
  induction items generalizing start with
  | nil => exact .nil
  | cons a rest ih =>
    rcases eachFrom_cons_cases f start a rest with ⟨x, hx, heq⟩ | ⟨hnone, heq⟩
    · rw [heq, map, hx] at hfault
      cases hfault
    · rw [heq] at hfault ⊢
      refine .cons (h start a List.mem_cons_self hnone) (ih (fun i b hb => ?_) hfault)
      exact h i b (List.mem_cons_of_mem a hb)

theorem forall₂_each_of_completed {f : α → Edit α} {items : List α}
    (h : ∀ a ∈ items, (f a).fault = none → R a (f a).value)
    (hfault : (each f items).fault = none) : List.Forall₂ R items (each f items).value :=
  forall₂_of_completed (fun _ => h) hfault

theorem length_each (f : α → Edit α) (items : List α) :
    (each f items).value.length = items.length :=
  eachFrom_length _ 0 items

end Edit

namespace ValueFrame

variable {v : AnnotationValue}

/-- Framed items may take the places of those that stood there. -/
theorem withItems {items : List AnnotationValue} (h : List.Forall₂ ValueFrame v.items items) :
    ValueFrame v (v.withItems items) := by
  cases v with
  | array others => exact .array (.of_forall₂ h)
  | _ =>
    cases h with
    | cons hvw hrest =>
      cases hrest
      exact hvw

theorem withStrings {texts edited : List String} (hv : v.strings? = some texts)
    (hlength : edited.length = texts.length) : ValueFrame v (v.withStrings edited) := by
  refine withItems ?_
  rw [AnnotationValue.strings?_eq_some.1 hv]
  clear hv
  induction texts generalizing edited with
  | nil =>
    rw [List.length_nil, List.length_eq_zero_iff] at hlength
    subst hlength
    exact .nil
  | cons text rest ih =>
    cases edited with
    | nil => cases hlength
    | cons s more =>
      rw [List.map_cons, List.map_cons]
      exact .cons (.string text s) (ih (Nat.succ.inj hlength))

end ValueFrame

/-- Items that come from those of a list position take their places, if none is a list itself. -/
theorem AnnotationValue.items_withItems_of_forall₂ {R : AnnotationValue → AnnotationValue → Prop}
    {v : AnnotationValue} {items : List AnnotationValue} (h : List.Forall₂ R v.items items)
    (hR : ∀ x y, R x y → y.array? = none) : (v.withItems items).items = items := by
  refine AnnotationValue.items_withItems h.length_eq.symm ?_
  generalize v.items = others at h
  induction h with
  | nil =>
    intro y hy
    cases hy
  | cons hxy _ ih => exact List.forall_mem_cons.2 ⟨hR _ _ hxy, ih⟩

/-- An element that is there may be given a value in its frame. -/
theorem NodeFrame.set {a : Annotation} {name : String} {v w : AnnotationValue}
    (hv : a.get? name = some v) (h : ElementFrame a.desc name v w) :
    NodeFrame a (a.set name w) := by
  obtain ⟨desc, elements⟩ := a
  refine .elements (elementsFrame_iff.2 ?_)
  unfold Annotation.get? at hv
  dsimp only at h hv
  have hrest : ∀ elements : List (String × AnnotationValue), List.Forall₂
      (fun e f => f.1 = e.1 ∧ ElementFrame desc e.1 e.2 f.2) elements elements := fun elements =>
    List.forall₂_same.2 fun e _ => ⟨rfl, .fixed desc e.1 e.2⟩
  induction elements with
  | nil => cases hv
  | cons e rest ih =>
    unfold Annotation.setElement
    by_cases he : e.1 = name
    · have hvalue : e.2 = v := by simpa [he] using hv
      subst he hvalue
      rw [if_pos (beq_self_eq_true e.1)]
      exact .cons ⟨rfl, h⟩ (hrest rest)
    · rw [List.find?_cons_of_neg (by simpa using he)] at hv
      rw [if_neg (by simpa using he)]
      exact .cons ⟨rfl, .fixed desc e.1 e.2⟩ (ih hv)

theorem NodeFrame.editElements {f : String → AnnotationValue → Edit AnnotationValue}
    {a : Annotation} (h : ∀ name v, ElementFrame a.desc name v (f name v).value) :
    NodeFrame a (a.editElements f).value := by
  obtain ⟨desc, elements⟩ := a
  refine .elements (elementsFrame_iff.2 ?_)
  exact Edit.forall₂_each (fun e => ⟨rfl, .fixed desc e.1 e.2⟩) fun e _ => ⟨rfl, h e.1 e.2⟩

namespace Annotation

variable {a : Annotation} {name : String} {v : AnnotationValue}

theorem contains_eq_isSome : a.contains name = (a.get? name).isSome := by
  rw [contains, get?, Option.isSome_map, Bool.eq_iff_iff, List.any_eq_true, List.find?_isSome]

theorem contains_eq_true : a.contains name = true ↔ name ∈ a.names := by
  rw [contains, List.any_eq_true, names, List.mem_map]
  exact exists_congr fun e => and_congr_right fun _ => beq_iff_eq

theorem mem_names_of_get? (h : a.get? name = some v) : name ∈ a.names := by
  rw [← contains_eq_true, contains_eq_isSome, h]
  rfl

theorem contains_add (a : Annotation) (name : String) (v : AnnotationValue) :
    (a.add name v).contains name = true := by
  simp [contains, add]

theorem set_eq_add (h : a.contains name = false) : a.set name v = a.add name v := by
  obtain ⟨desc, elements⟩ := a
  rw [set, add]
  congr 1
  rw [contains] at h
  dsimp only at h ⊢
  induction elements with
  | nil => rfl
  | cons e rest ih =>
    rw [List.any_cons, Bool.or_eq_false_iff] at h
    rw [setElement, h.1, ih h.2]
    rfl

theorem get?_set_self (a : Annotation) (name : String) (v : AnnotationValue) :
    (a.set name v).get? name = some v := by
  obtain ⟨desc, elements⟩ := a
  unfold set get?
  dsimp only
  induction elements with
  | nil => simp [setElement]
  | cons e rest ih =>
    rw [setElement]
    by_cases he : e.1 = name
    · simp [he]
    · rw [if_neg (by simpa using he), List.find?_cons_of_neg (by simpa using he)]
      exact ih

theorem get?_set_of_ne {other : String} (h : other ≠ name) (v : AnnotationValue) :
    (a.set name v).get? other = a.get? other := by
  obtain ⟨desc, elements⟩ := a
  unfold set get?
  dsimp only
  induction elements with
  | nil => simp [setElement, h.symm]
  | cons e rest ih =>
    rw [setElement]
    by_cases he : e.1 = name
    · have hother : ¬e.1 = other := fun heq => h (heq.symm.trans he)
      rw [if_pos (by simpa using he), List.find?_cons_of_neg (by simpa using hother),
        List.find?_cons_of_neg (by simpa using hother)]
    · rw [if_neg (by simpa using he)]
      by_cases hother : e.1 = other
      · rw [List.find?_cons_of_pos (by simpa using hother),
          List.find?_cons_of_pos (by simpa using hother)]
      · rw [List.find?_cons_of_neg (by simpa using hother),
          List.find?_cons_of_neg (by simpa using hother)]
        exact ih

theorem names_set (h : name ∈ a.names) (v : AnnotationValue) :
    (a.set name v).names = a.names := by
  obtain ⟨desc, elements⟩ := a
  unfold set names at *
  dsimp only at *
  induction elements with
  | nil => cases h
  | cons e rest ih =>
    rw [setElement]
    by_cases he : e.1 = name
    · rw [if_pos (by simpa using he)]
      rfl
    · rw [List.map_cons, List.mem_cons] at h
      rw [if_neg (by simpa using he), List.map_cons, List.map_cons,
        ih (h.resolve_left (Ne.symm he))]

/-- What is written last stands. -/
theorem set_set (a : Annotation) (name : String) (v w : AnnotationValue) :
    (a.set name v).set name w = a.set name w := by
  obtain ⟨desc, elements⟩ := a
  unfold set
  congr 1
  dsimp only
  induction elements with
  | nil => simp [setElement]
  | cons e rest ih =>
    rw [setElement, setElement]
    by_cases he : e.1 = name
    · simp [he, setElement]
    · rw [if_neg (by simpa using he), if_neg (by simpa using he), setElement,
        if_neg (by simpa using he), ih]

/-- Two elements are written in either order, as long as one of them is there before. -/
theorem set_comm {other : String} (hne : name ≠ other) (h : other ∈ a.names)
    (v w : AnnotationValue) : (a.set other v).set name w = (a.set name w).set other v := by
  obtain ⟨desc, elements⟩ := a
  unfold set names at *
  congr 1
  dsimp only at *
  induction elements with
  | nil => cases h
  | cons e rest ih =>
    rw [List.map_cons, List.mem_cons] at h
    by_cases hother : e.1 = other
    · have hname : e.1 ≠ name := fun heq => hne (heq.symm.trans hother)
      simp [setElement, hother, hne.symm]
    · have hrest := ih (h.resolve_left (Ne.symm hother))
      by_cases hname : e.1 = name
      · simp [setElement, hname, hne]
      · simp [setElement, hname, hother, hrest]

/-- Writing the value that is there already changes nothing. -/
theorem set_eq_self_iff : a.set name v = a ↔ a.get? name = some v := by
  constructor
  · intro h
    rw [← h]
    exact a.get?_set_self name v
  · obtain ⟨desc, elements⟩ := a
    unfold set get?
    dsimp only
    intro h
    congr 1
    induction elements with
    | nil => cases h
    | cons e rest ih =>
      rw [setElement]
      by_cases he : e.1 = name
      · have hvalue : e.2 = v := by simpa [he] using h
        rw [if_pos (by simpa using he), ← hvalue]
      · rw [List.find?_cons_of_neg (by simpa using he)] at h
        rw [if_neg (by simpa using he), ih h]

end Annotation

end MixinNaming
