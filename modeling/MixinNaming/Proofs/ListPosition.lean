import MixinNaming.Annotation
/-! What stands at a list position: its items, and its texts if it holds texts alone. -/
namespace MixinNaming.AnnotationValue

theorem string?_eq_some {v : AnnotationValue} {s : String} :
    v.string? = some s ↔ v = .string s := by
  cases v <;> simp [string?]

theorem mapM_string?_eq_some {items : List AnnotationValue} {texts : List String} :
    items.mapM string? = some texts ↔ items = texts.map .string := by
  induction items generalizing texts with
  | nil =>
    cases texts with
    | nil => simp
    | cons s rest => simp
  | cons v rest ih =>
    rw [List.mapM_cons]
    constructor
    · intro h
      obtain ⟨s, hs, h⟩ := Option.bind_eq_some_iff.1 h
      obtain ⟨more, hmore, h⟩ := Option.bind_eq_some_iff.1 h
      cases h
      rw [string?_eq_some.1 hs, ih.1 hmore]
      rfl
    · intro h
      cases texts with
      | nil => cases h
      | cons s more =>
        obtain ⟨rfl, hrest⟩ := List.cons.inj h
        rw [ih.2 hrest]
        rfl

theorem strings?_eq_some {v : AnnotationValue} {texts : List String} :
    v.strings? = some texts ↔ v.items = texts.map .string := by
  rw [strings?_eq_mapM, mapM_string?_eq_some]

theorem mem_of_strings? {v : AnnotationValue} {texts : List String}
    (h : v.strings? = some texts) (s : String) : s ∈ texts ↔ .string s ∈ v.items := by
  rw [strings?_eq_some.1 h]
  simp

theorem exists_strings? {v : AnnotationValue} :
    (∃ texts, v.strings? = some texts) ↔ ∀ x ∈ v.items, ∃ s, x = .string s := by
  simp only [strings?_eq_some]
  constructor
  · rintro ⟨texts, h⟩ x hx
    rw [h] at hx
    obtain ⟨s, -, rfl⟩ := List.mem_map.1 hx
    exact ⟨s, rfl⟩
  · intro h
    generalize v.items = items at h
    induction items with
    | nil => exact ⟨[], rfl⟩
    | cons x rest ih =>
      rw [List.forall_mem_cons] at h
      obtain ⟨⟨s, rfl⟩, hrest⟩ := h
      obtain ⟨texts, rfl⟩ := ih hrest
      exact ⟨s :: texts, rfl⟩

/-- New items stand where the old ones stood, a lone item in place of a lone one. -/
theorem items_withItems {v : AnnotationValue} {items : List AnnotationValue}
    (hlength : items.length = v.items.length) (h : ∀ x ∈ items, x.array? = none) :
    (v.withItems items).items = items := by
  cases v with
  | array others => rfl
  | _ =>
    obtain ⟨x, rfl⟩ := List.length_eq_one_iff.1 hlength
    have hx := h x (List.mem_singleton_self x)
    cases x with
    | array others => cases hx
    | _ => rfl

theorem strings?_withStrings {v : AnnotationValue} {texts : List String}
    (hlength : texts.length = v.items.length) : (v.withStrings texts).strings? = some texts := by
  rw [strings?_eq_some, withStrings]
  refine items_withItems ((List.length_map _).trans hlength) fun x hx => ?_
  obtain ⟨text, -, rfl⟩ := List.mem_map.1 hx
  rfl

end MixinNaming.AnnotationValue
