import Mathlib.Data.List.FinRange
import MixinNaming.Proofs.Qualified.Injection
/-! Annotations whose elements stand in another order. An arrangement permutes the elements of an
annotation and those of every annotation inside it, each by a permutation of its own. Where no name
is repeated, elements are found by their names as before, and written back where they stand. -/
namespace MixinNaming

variable {α β : Type}

/-- A permutation of the first few items of a list. The items behind them stay, and so does a list
with fewer items. -/
structure Shuffle where
  size : Nat
  order : Equiv.Perm (Fin size)

namespace Shuffle

variable {s : Shuffle} {items : List α}

def apply (s : Shuffle) (items : List α) : List α :=
  if h : s.size ≤ items.length then
    (List.ofFn fun i => items.get ((s.order i).castLE h)) ++ items.drop s.size
  else items

theorem map_apply (s : Shuffle) (f : α → β) (items : List α) :
    (s.apply items).map f = s.apply (items.map f) := by
  by_cases h : s.size ≤ items.length
  · have hmap : s.size ≤ (items.map f).length := by rwa [List.length_map]
    rw [apply, apply, dif_pos h, dif_pos hmap, List.map_append, List.map_ofFn, List.map_drop]
    congr 2
    funext i
    simp
  · have hmap : ¬s.size ≤ (items.map f).length := by rwa [List.length_map]
    rw [apply, apply, dif_neg h, dif_neg hmap]

theorem apply_perm (s : Shuffle) (items : List α) : (s.apply items).Perm items := by
  by_cases h : s.size ≤ items.length
  · have htake : (List.ofFn fun i : Fin s.size => items.get (i.castLE h)) =
        items.take s.size := by
      refine List.ext_getElem ?_ fun i hi hi' => ?_
      · simp [h]
      · simp
    have hfront := s.order.ofFn_comp_perm fun i : Fin s.size => items.get (i.castLE h)
    rw [htake] at hfront
    have hall := hfront.append_right (items.drop s.size)
    rw [List.take_append_drop] at hall
    rw [apply, dif_pos h]
    exact hall
  · rw [apply, dif_neg h]

theorem mem_apply {a : α} : a ∈ s.apply items ↔ a ∈ items := (s.apply_perm items).mem_iff

/-- What is put behind the items that are permuted stays there. -/
theorem apply_append (h : s.size ≤ items.length) (more : List α) :
    s.apply (items ++ more) = s.apply items ++ more := by
  have hmore : s.size ≤ (items ++ more).length := by
    rw [List.length_append]
    omega
  rw [apply, apply, dif_pos h, dif_pos hmore, List.drop_append_of_le_length h, List.append_assoc]
  congr 2
  funext i
  have hi : (s.order i).val < items.length := by omega
  simp [List.getElem_append_left hi]

end Shuffle

/-- How elements are arranged. The numbers of the elements and of the list items that lead to an
annotation tell its place. -/
def Arrangement : Type := List Nat → Shuffle

def Arrangement.inside (ρ : Arrangement) (i : Nat) : Arrangement := fun place => ρ (i :: place)

mutual

def AnnotationValue.arrange : AnnotationValue → Arrangement → AnnotationValue
  | .nested a, ρ => .nested (a.arrange ρ)
  | .array items, ρ => .array (arrangeItems items 0 ρ)
  | v, _ => v

def arrangeItems : List AnnotationValue → Nat → Arrangement → List AnnotationValue
  | [], _, _ => []
  | v :: rest, i, ρ => v.arrange (ρ.inside i) :: arrangeItems rest (i + 1) ρ

def Annotation.arrange : Annotation → Arrangement → Annotation
  | ⟨desc, elements⟩, ρ => ⟨desc, (ρ []).apply (arrangeElements elements 0 ρ)⟩

def arrangeElements :
    List (String × AnnotationValue) → Nat → Arrangement → List (String × AnnotationValue)
  | [], _, _ => []
  | (name, v) :: rest, i, ρ => (name, v.arrange (ρ.inside i)) :: arrangeElements rest (i + 1) ρ

end

/-- The arrangement of an item of a list position. A lone item has no number. -/
def Arrangement.within (ρ : Arrangement) (v : AnnotationValue) (i : Nat) : Arrangement :=
  match v with
  | .array _ => ρ.inside i
  | _ => ρ

def arrangeElement (ρ : Arrangement) (i : Nat) (e : String × AnnotationValue) :
    String × AnnotationValue :=
  (e.1, e.2.arrange (ρ.inside i))

inductive AnnotationValue.Holds : AnnotationValue → Annotation → Prop where
  | here (a : Annotation) : Holds (.nested a) a
  | element {a b : Annotation} {e : String × AnnotationValue} (he : e ∈ a.elements)
      (h : Holds e.2 b) : Holds (.nested a) b
  | item {items : List AnnotationValue} {v : AnnotationValue} {b : Annotation} (hv : v ∈ items)
      (h : Holds v b) : Holds (.array items) b

def AnnotationValue.Distinct (v : AnnotationValue) : Prop :=
  ∀ a, v.Holds a → a.desc ∈ [Vocabulary.atType, Vocabulary.sliceType, Vocabulary.descType] →
    a.names.Nodup

/-- No name is repeated in the annotation, nor in an @At, a @Slice or a @Desc inside it. -/
structure Annotation.Distinct (a : Annotation) : Prop where
  names : a.names.Nodup
  inside : ∀ e ∈ a.elements, e.2.Distinct

namespace AnnotationValue

variable {v x : AnnotationValue} {a : Annotation} {ρ : Arrangement} {texts : List String}

theorem Distinct.element (h : (AnnotationValue.nested a).Distinct) {e : String × AnnotationValue}
    (he : e ∈ a.elements) : e.2.Distinct :=
  fun b hb => h b (.element he hb)

theorem Distinct.names (h : (AnnotationValue.nested a).Distinct)
    (hdesc : a.desc ∈ [Vocabulary.atType, Vocabulary.sliceType, Vocabulary.descType]) :
    a.names.Nodup :=
  h a (.here a) hdesc

theorem Distinct.item (h : v.Distinct) (hx : x ∈ v.items) : x.Distinct := by
  cases v with
  | array items => exact fun b hb => h b (.item hx hb)
  | _ =>
    obtain rfl := List.mem_singleton.1 hx
    exact h

@[simp] theorem distinct_string (s : String) : (AnnotationValue.string s).Distinct := nofun

@[simp] theorem distinct_type (t : ClassLiteral) : (AnnotationValue.type t).Distinct := nofun

@[simp] theorem distinct_array {items : List AnnotationValue} :
    (AnnotationValue.array items).Distinct ↔ ∀ x ∈ items, x.Distinct := by
  constructor
  · exact fun h x hx => h.item hx
  · intro h a ha
    cases ha with
    | item hx ha => exact h _ hx a ha

@[simp] theorem distinct_nested : (AnnotationValue.nested a).Distinct ↔
    (a.desc ∈ [Vocabulary.atType, Vocabulary.sliceType, Vocabulary.descType] → a.names.Nodup) ∧
      ∀ e ∈ a.elements, e.2.Distinct := by
  constructor
  · exact fun h => ⟨h.names, fun e he => h.element he⟩
  · rintro ⟨hnames, helements⟩ b hb
    cases hb with
    | here => exact hnames
    | element he hb => exact helements _ he b hb

section Items

theorem arrangeItems_eq (items : List AnnotationValue) (start : Nat) (ρ : Arrangement) :
    arrangeItems items start ρ =
      (items.zipIdx start).map fun p => p.1.arrange (ρ.inside p.2) := by
  induction items generalizing start with
  | nil => rfl
  | cons v rest ih => rw [arrangeItems, ih, List.zipIdx_cons, List.map_cons]

theorem items_arrange (v : AnnotationValue) (ρ : Arrangement) :
    (v.arrange ρ).items = v.items.zipIdx.map fun p => p.1.arrange (ρ.within v p.2) := by
  cases v with
  | array items => exact arrangeItems_eq items 0 ρ
  | _ => rfl

/-- Arranged items stand in an arranged value. -/
theorem withItems_arrange (v : AnnotationValue) (ρ : Arrangement) (items : List AnnotationValue) :
    (v.arrange ρ).withItems (items.zipIdx.map fun p => p.1.arrange (ρ.within v p.2)) =
      (v.withItems items).arrange ρ := by
  cases v with
  | array others => exact congrArg AnnotationValue.array (arrangeItems_eq items 0 ρ).symm
  | _ =>
    cases items with
    | nil => rfl
    | cons x rest => rfl

theorem string?_arrange (v : AnnotationValue) (ρ : Arrangement) :
    (v.arrange ρ).string? = v.string? := by
  cases v with
  | _ => rfl

end Items

/-- There is no annotation in the value that could be arranged. -/
def Fixed (v : AnnotationValue) : Prop := ∀ ρ, v.arrange ρ = v

theorem fixed_string (s : String) : Fixed (.string s) := fun _ => rfl

theorem fixed_type (t : ClassLiteral) : Fixed (.type t) := fun _ => rfl

theorem fixed_array {items : List AnnotationValue} (h : ∀ x ∈ items, Fixed x) :
    Fixed (.array items) := by
  intro ρ
  have hitems : ∀ p ∈ items.zipIdx, p.1.arrange (ρ.inside p.2) = p.1 :=
    fun p hp => h p.1 (List.fst_mem_of_mem_zipIdx hp) _
  rw [arrange, arrangeItems_eq, List.map_congr_left hitems, List.zipIdx_map_fst]

theorem fixed_of_strings? (h : v.strings? = some texts) : Fixed v := by
  have hitems := strings?_eq_some.1 h
  cases v with
  | array items =>
    refine fixed_array fun x hx => ?_
    obtain ⟨s, rfl⟩ := exists_strings?.1 ⟨texts, h⟩ x hx
    exact fixed_string s
  | string s => exact fixed_string s
  | _ => cases h

theorem fixed_withStrings (h : v.strings? = some texts) {others : List String}
    (hlength : others.length = texts.length) : Fixed (v.withStrings others) := by
  have hitems := strings?_eq_some.1 h
  refine fixed_of_strings? (strings?_withStrings (hlength.trans ?_))
  rw [hitems, List.length_map]

theorem strings?_arrange (v : AnnotationValue) (ρ : Arrangement) :
    (v.arrange ρ).strings? = v.strings? := by
  cases htexts : v.strings? with
  | some texts => rw [fixed_of_strings? htexts ρ, htexts]
  | none =>
    by_contra hsome
    obtain ⟨texts, harranged⟩ := Option.ne_none_iff_exists'.1 hsome
    have hall : ∀ x ∈ v.items, ∃ s, x = .string s := by
      intro x hx
      obtain ⟨i, hi⟩ := List.getElem?_of_mem hx
      have hmem : x.arrange (ρ.within v i) ∈ (v.arrange ρ).items := by
        rw [items_arrange]
        exact List.mem_map.2 ⟨(x, i), List.mem_zipIdx_iff_getElem?.2 hi, rfl⟩
      obtain ⟨s, hs⟩ := exists_strings?.1 ⟨texts, harranged⟩ _ hmem
      refine ⟨s, string?_eq_some.1 ?_⟩
      rw [← string?_arrange x (ρ.within v i), hs]
      rfl
    obtain ⟨others, hothers⟩ := exists_strings?.2 hall
    cases htexts.symm.trans hothers

end AnnotationValue

namespace Annotation

variable {a : Annotation} {ρ : Arrangement} {name : String} {v w : AnnotationValue}

theorem arrangeElements_eq (elements : List (String × AnnotationValue)) (start : Nat)
    (ρ : Arrangement) : arrangeElements elements start ρ =
      (elements.zipIdx start).map fun p => arrangeElement ρ p.2 p.1 := by
  induction elements generalizing start with
  | nil => rfl
  | cons e rest ih => rw [arrangeElements, ih, List.zipIdx_cons, List.map_cons, arrangeElement]

theorem arrange_eq (a : Annotation) (ρ : Arrangement) : a.arrange ρ =
    ⟨a.desc, (ρ []).apply (a.elements.zipIdx.map fun p => arrangeElement ρ p.2 p.1)⟩ := by
  obtain ⟨desc, elements⟩ := a
  rw [arrange, arrangeElements_eq]

@[simp] theorem desc_arrange (a : Annotation) (ρ : Arrangement) : (a.arrange ρ).desc = a.desc := by
  rw [arrange_eq]

theorem mem_elements_arrange {e : String × AnnotationValue} :
    e ∈ (a.arrange ρ).elements ↔
      ∃ i before, a.elements[i]? = some before ∧ arrangeElement ρ i before = e := by
  rw [arrange_eq, Shuffle.mem_apply, List.mem_map]
  constructor
  · rintro ⟨⟨before, i⟩, hmem, rfl⟩
    exact ⟨i, before, List.mem_zipIdx_iff_getElem?.1 hmem, rfl⟩
  · rintro ⟨i, before, hi, rfl⟩
    exact ⟨(before, i), List.mem_zipIdx_iff_getElem?.2 hi, rfl⟩

theorem names_arrange (a : Annotation) (ρ : Arrangement) : (a.arrange ρ).names.Perm a.names := by
  have hnames : (a.elements.zipIdx.map fun p => arrangeElement ρ p.2 p.1).map Prod.fst =
      a.names := by
    rw [List.map_map, names]
    conv_rhs => rw [← List.zipIdx_map_fst 0 a.elements, List.map_map]
    rfl
  rw [arrange_eq]
  refine (((ρ []).apply_perm _).map Prod.fst).trans ?_
  rw [hnames]

theorem contains_arrange (a : Annotation) (ρ : Arrangement) (name : String) :
    (a.arrange ρ).contains name = a.contains name := by
  rw [Bool.eq_iff_iff, contains_eq_true, contains_eq_true]
  exact (names_arrange a ρ).mem_iff

/-- An element that is found by its name stands at some place. -/
theorem exists_getElem?_of_get? (h : a.get? name = some v) :
    ∃ i : Nat, a.elements[i]? = some (name, v) := by
  obtain ⟨e, he, rfl⟩ := Option.map_eq_some_iff.1 h
  have hname := List.find?_some he
  obtain ⟨i, hi⟩ := List.getElem?_of_mem (List.mem_of_find?_eq_some he)
  refine ⟨i, hi.trans ?_⟩
  rw [← eq_of_beq hname]

theorem get?_arrange_of_getElem? (hnames : a.names.Nodup) {i : Nat}
    (hi : a.elements[i]? = some (name, v)) :
    (a.arrange ρ).get? name = some (v.arrange (ρ.inside i)) := by
  refine get?_of_mem ((names_arrange a ρ).nodup_iff.2 hnames) ?_
  exact mem_elements_arrange.2 ⟨i, (name, v), hi, rfl⟩

theorem get?_arrange_of_none (h : a.get? name = none) : (a.arrange ρ).get? name = none := by
  rw [← Option.not_isSome_iff_eq_none, ← contains_eq_isSome] at h ⊢
  rwa [contains_arrange]

/-- What is found by a name is arranged like everything at its place. -/
theorem exists_get?_arrange (hnames : a.names.Nodup) (ρ : Arrangement) (name : String) :
    ∃ i, (a.arrange ρ).get? name = (a.get? name).map fun v => v.arrange (ρ.inside i) := by
  cases hv : a.get? name with
  | none => exact ⟨0, get?_arrange_of_none hv⟩
  | some v =>
    obtain ⟨i, hi⟩ := exists_getElem?_of_get? hv
    exact ⟨i, get?_arrange_of_getElem? hnames hi⟩

theorem place_unique (hnames : a.names.Nodup) {i j : Nat} {e f : String × AnnotationValue}
    (hi : a.elements[i]? = some e) (hj : a.elements[j]? = some f) (hname : f.1 = e.1) : j = i := by
  obtain ⟨hlength, -⟩ := List.getElem?_eq_some_iff.1 hj
  have hj' : j < a.names.length := by rwa [names, List.length_map]
  refine (List.getElem?_inj hj' hnames).1 ?_
  rw [names, List.getElem?_map, List.getElem?_map, hi, hj, Option.map_some, Option.map_some, hname]

/-- Where a name stands once, the element of that name is replaced where it stands. -/
theorem setElement_eq_map {elements : List (String × AnnotationValue)}
    (hnames : (elements.map (·.1)).Nodup) (hname : name ∈ elements.map (·.1))
    (w : AnnotationValue) :
    setElement name w elements = elements.map fun e => if e.1 = name then (e.1, w) else e := by
  induction elements with
  | nil => cases hname
  | cons e rest ih =>
    rw [List.map_cons, List.nodup_cons] at hnames
    rw [setElement, List.map_cons]
    by_cases he : e.1 = name
    · have hrest : ∀ f ∈ rest, (if f.1 = name then (f.1, w) else f) = f := by
        intro f hf
        rw [if_neg]
        rintro rfl
        exact hnames.1 (List.mem_map.2 ⟨f, hf, he.symm⟩)
      rw [if_pos (beq_iff_eq.2 he), if_pos he, List.map_congr_left hrest, List.map_id']
    · have hmem : name ∈ rest.map (·.1) := (List.mem_cons.1 hname).resolve_left (Ne.symm he)
      rw [if_neg (mt beq_iff_eq.1 he), if_neg he, ih hnames.2 hmem]

/-- A value is written into the arranged annotation where it would have been written before. -/
theorem set_arrange (hnames : a.names.Nodup) {i : Nat} (hi : a.elements[i]? = some (name, v))
    (w : AnnotationValue) :
    (a.arrange ρ).set name (w.arrange (ρ.inside i)) = (a.set name w).arrange ρ := by
  have hmem : name ∈ a.names := List.mem_map.2 ⟨_, List.mem_of_getElem? hi, rfl⟩
  have hperm := names_arrange a ρ
  have hleft : setElement name (w.arrange (ρ.inside i)) (a.arrange ρ).elements =
      (a.arrange ρ).elements.map fun e => if e.1 = name then (e.1, _) else e :=
    setElement_eq_map (hperm.nodup_iff.2 hnames) (hperm.mem_iff.2 hmem) _
  have hright : setElement name w a.elements = a.elements.map _ :=
    setElement_eq_map hnames hmem w
  have hplaces : ∀ p ∈ a.elements.zipIdx,
      (if p.1.1 = name then (p.1.1, w.arrange (ρ.inside i)) else arrangeElement ρ p.2 p.1) =
        arrangeElement ρ p.2 (if p.1.1 = name then (p.1.1, w) else p.1) := by
    rintro ⟨e, j⟩ hp
    by_cases he : e.1 = name
    · -- the name stands at one place only
      obtain rfl := place_unique hnames hi (List.mem_zipIdx_iff_getElem?.1 hp) he
      rw [if_pos he, if_pos he]
      rfl
    · rw [if_neg he, if_neg he]
  rw [set, hleft, desc_arrange, arrange_eq, Shuffle.map_apply, List.map_map, arrange_eq, set,
    hright, List.zipIdx_map, List.map_map]
  dsimp only
  congr 2
  exact List.map_congr_left hplaces

theorem set_arrange_of_fixed (hnames : a.names.Nodup) (hname : name ∈ a.names) (hw : w.Fixed) :
    (a.arrange ρ).set name w = (a.set name w).arrange ρ := by
  obtain ⟨e, he, rfl⟩ := List.mem_map.1 hname
  obtain ⟨i, hi⟩ := List.getElem?_of_mem he
  have hset := set_arrange (ρ := ρ) hnames hi w
  rwa [hw] at hset

end Annotation

end MixinNaming
