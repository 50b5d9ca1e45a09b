import Mathlib.Data.List.Induction
import MixinNaming.Proofs.Desc.Reading
import MixinNaming.Proofs.Frame.ClassPass
import MixinNaming.Proofs.Locality.ClassPass
import MixinNaming.Proofs.Spelling
import MixinNaming.Proofs.TargetOrder.ClassPass
/-! The targets that the declarations of a class name. One walk over the declarations renames every
target where it stands, and the members are given the names as they stood before. -/
namespace MixinNaming

variable {α β : Type}

/-- The classes of a target set are the names it is made of, each where it is mentioned first. -/
theorem TargetSet.classes_ofList (names : List String) :
    (ofList names).classes = names.eraseDups := by
  induction names using List.reverseRecOn with
  | nil => rfl
  | append_singleton front c ih =>
    have hinsert : ofList (front ++ [c]) = (ofList front).insert c := by
      rw [ofList, List.foldl_append]
      rfl
    rw [hinsert, classes_insert, ih, List.eraseDups_append]
    by_cases hc : c ∈ front
    · have hnew : [c].removeAll front = [] := by simp [List.removeAll, hc]
      rw [if_pos (List.mem_eraseDups.2 hc), hnew]
      exact (List.append_nil _).symm
    · have hnew : [c].removeAll front = [c] := by simp [List.removeAll, hc]
      rw [if_neg (mt List.mem_eraseDups.1 hc), hnew]
      rfl

namespace Edit

/-- Every gap on the way has been passed over, or it is what has stopped the edit. -/
def Heeds (p : Policy) (d : Edit α) : Prop :=
  ∀ gap ∈ Event.gaps d.events, p.refusal gap = none ∨ p.refusal gap = d.fault

/-- Stopped for a fault of the mixin itself, and not by the answer to a gap. -/
structure Rejected (p : Policy) (d : Edit α) (f : Fault) : Prop where
  fault : d.fault = some f
  structural : f.isStructural = true
  unrefused : ∀ gap ∈ Event.gaps d.events, p.refusal gap ≠ some f

variable {p : Policy} {f : α → Edit α} {x : Fault}

theorem heeds_of_ungapped {d : Edit α} (h : Event.gaps d.events = []) : d.Heeds p := by
  intro gap hgap
  rw [h] at hgap
  cases hgap

theorem heeds_each (h : ∀ a, (f a).Heeds p) (items : List α) : (each f items).Heeds p := by
  induction items with
  | nil => exact heeds_of_ungapped rfl
  | cons a rest ih =>
    cases ha : (f a).fault with
    | some x =>
      rw [each_cons_of_some ha]
      exact h a
    | none =>
      rw [each_cons_of_none ha]
      intro gap hgap
      rcases List.mem_append.1 (Event.gaps_append _ _ ▸ hgap) with hgap | hgap
      · have hpassed := h a gap hgap
        rw [ha] at hpassed
        exact .inl (hpassed.elim id id)
      · exact ih gap hgap

/-- Where no gap is answered with a fault of the mixin itself, any such fault is a rejection. -/
theorem rejected_iff (hp : ∀ gap f, p.refusal gap = some f → f.isStructural = false) {d : Edit α} :
    d.Rejected p x ↔ d.fault = some x ∧ x.isStructural = true := by
  refine ⟨fun h => ⟨h.fault, h.structural⟩, fun ⟨hx, hstructural⟩ => ⟨hx, hstructural, ?_⟩⟩
  intro gap _ hrefused
  rw [hp gap x hrefused] at hstructural
  cases hstructural

theorem Rejected.map {d : Edit α} (h : d.Rejected p x) (k : α → β) : (d.map k).Rejected p x :=
  ⟨h.fault, h.structural, h.unrefused⟩

theorem Rejected.of_map {d : Edit α} {k : α → β} (h : (d.map k).Rejected p x) : d.Rejected p x :=
  ⟨h.fault, h.structural, h.unrefused⟩

/-- The edit of a list is rejected for the first item that stops it. -/
theorem Rejected.of_each {items : List α} (h : (each f items).Rejected p x) :
    ∃ before a after, items = before ++ a :: after ∧ (each f before).fault = none ∧
      (f a).Rejected p x := by
  obtain ⟨before, a, after, hitems, hbefore, ha, heq⟩ := each_of_stopped h.fault
  refine ⟨before, a, after, hitems, hbefore, ha, h.structural, fun gap hgap => ?_⟩
  refine h.unrefused gap ?_
  rw [heq, Event.gaps_append]
  exact List.mem_append_right _ hgap

theorem Rejected.each {before : List α} {a : α} (h : (f a).Rejected p x)
    (hheeds : ∀ a, (f a).Heeds p) (hbefore : (each f before).fault = none) (after : List α) :
    (each f (before ++ a :: after)).Rejected p x := by
  rw [each_append_of_none hbefore, each_cons_of_some h.fault]
  refine ⟨h.fault, h.structural, fun gap hgap => ?_⟩
  rcases List.mem_append.1 (Event.gaps_append _ _ ▸ hgap) with hgap | hgap
  · have hpassed := heeds_each hheeds before gap hgap
    rw [hbefore] at hpassed
    rw [hpassed.elim id id]
    exact nofun
  · exact h.unrefused gap hgap

end Edit

namespace Declaration

/-- A list before and after, with the names that its items mention one after the other. -/
inductive Collected (R : α → α → List String → Prop) : List α → List α → List String → Prop where
  | nil : Collected R [] [] []
  | cons {a b : α} {as bs : List α} {names more : List String} (hitem : R a b names)
      (hrest : Collected R as bs more) : Collected R (a :: as) (b :: bs) (names ++ more)

inductive ElementRenamed (n : Naming) :
    String × AnnotationValue → String × AnnotationValue → List String → Prop where
  | value (v : AnnotationValue) {names : List String} (hnames : ∀ c ∈ names, c ≠ "")
      (hitems : v.items = names.map fun c => .type (.object c)) :
      ElementRenamed n ("value", v)
        ("value", v.withItems (names.map fun c => .type (.object (n.className c)))) names
  | targets (v : AnnotationValue) {texts : List String} (hitems : v.items = texts.map .string) :
      ElementRenamed n ("targets", v)
        ("targets", v.withItems (texts.map fun text => .string (n.respell text)))
        (texts.map Text.slashed)
  | other {name : String} (v : AnnotationValue) (hvalue : name ≠ "value")
      (htargets : name ≠ "targets") : ElementRenamed n (name, v) (name, v) []

inductive AnnotationRenamed (n : Naming) : Annotation → Annotation → List String → Prop where
  | mixin {elements renamed : List (String × AnnotationValue)} {names : List String}
      (helements : Collected (ElementRenamed n) elements renamed names) :
      AnnotationRenamed n ⟨Vocabulary.mixin, elements⟩ ⟨Vocabulary.mixin, renamed⟩ names
  | other (a : Annotation) (hdesc : a.desc ≠ Vocabulary.mixin) : AnnotationRenamed n a a []

/-- An element that mentions something else than a target: in `value`, something that is no class
literal of a reference type, and in `targets`, something that is no text. -/
def Misstated (e : String × AnnotationValue) : Prop :=
  (e.1 = "value" ∧ ∃ x ∈ e.2.items, ∀ name, name ≠ "" → x ≠ .type (.object name)) ∨
    (e.1 = "targets" ∧ ∃ x ∈ e.2.items, ∀ text, x ≠ .string text)

variable {n : Naming} {r : Remapper} {mixin : String}

section Collecting

variable {R : α → α → List String → Prop}

/-- A walk that comes to the end has edited item by item. -/
theorem exists_collected {f : α → Edit α} {items : List α}
    (hf : ∀ a, (f a).fault = none → ∃ names, R a (f a).value names)
    (h : (Edit.each f items).fault = none) :
    ∃ names, Collected R items (Edit.each f items).value names := by
  induction items with
  | nil => exact ⟨[], .nil⟩
  | cons a rest ih =>
    obtain ⟨ha, hrest⟩ := List.forall_mem_cons.1 (Edit.each_fault_eq_none.1 h)
    obtain ⟨names, hitem⟩ := hf a ha
    obtain ⟨more, hmore⟩ := ih (Edit.each_fault_eq_none.2 hrest)
    rw [Edit.each_cons_of_none ha]
    exact ⟨names ++ more, .cons hitem hmore⟩

theorem Collected.names_eq {g : α → List String} (hg : ∀ a b names, R a b names → names = g a)
    {as bs : List α} {names : List String} (h : Collected R as bs names) :
    names = as.flatMap g := by
  induction h with
  | nil => rfl
  | cons hitem _ ih => rw [List.flatMap_cons, ← ih, ← hg _ _ _ hitem]

end Collecting

section Literals

theorem renameLiteral_object {name : String} (hname : name ≠ "") :
    renameLiteral n mixin (.type (.object name)) =
      .keep (.type (.object (n.className name))) := by
  have hreference := ClassLiteral.reference?_eq_some.2 ⟨hname, rfl⟩
  rw [renameLiteral, hreference, Naming.className]
  dsimp only
  cases n.class? name with
  | none => rfl
  | some renamed => rfl

/-- Only class literals of reference types are let through. -/
theorem renameLiteral_fault_eq_none {x : AnnotationValue} :
    (renameLiteral n mixin x).fault = none ↔ ∃ name, name ≠ "" ∧ x = .type (.object name) := by
  constructor
  · intro h
    unfold renameLiteral at h
    split at h
    · next t =>
      split at h
      · cases h
      · next name hreference =>
        obtain ⟨hname, rfl⟩ := ClassLiteral.reference?_eq_some.1 hreference
        exact ⟨name, hname, rfl⟩
    · cases h
  · rintro ⟨name, hname, rfl⟩
    rw [renameLiteral_object hname]
    rfl

theorem exists_names_of_literals {items : List AnnotationValue}
    (h : ∀ x ∈ items, ∃ name, name ≠ "" ∧ x = .type (.object name)) :
    ∃ names : List String, (∀ c ∈ names, c ≠ "") ∧
      items = names.map fun c => .type (.object c) := by
  induction items with
  | nil => exact ⟨[], nofun, rfl⟩
  | cons x rest ih =>
    rw [List.forall_mem_cons] at h
    obtain ⟨⟨name, hname, rfl⟩, hrest⟩ := h
    obtain ⟨names, hnames, rfl⟩ := ih hrest
    exact ⟨name :: names, List.forall_mem_cons.2 ⟨hname, hnames⟩, rfl⟩

theorem value_each_renameLiteral {names : List String} (hnames : ∀ c ∈ names, c ≠ "") :
    (Edit.each (renameLiteral n mixin) (names.map fun c => .type (.object c))).value =
      names.map fun c => .type (.object (n.className c)) := by
  have hedits : ∀ c ∈ names, renameLiteral n mixin (.type (.object c)) =
      .keep (.type (.object (n.className c))) := fun c hc => renameLiteral_object (hnames c hc)
  have hcompleted : (Edit.each (renameLiteral n mixin)
      (names.map fun c => .type (.object c))).fault = none := by
    refine Edit.each_fault_eq_none.2 fun x hx => ?_
    obtain ⟨c, hc, rfl⟩ := List.mem_map.1 hx
    rw [hedits c hc]
    rfl
  rw [Edit.each_of_completed hcompleted]
  dsimp only
  rw [List.map_map]
  refine List.map_congr_left fun c hc => ?_
  rw [Function.comp_apply, hedits c hc]
  rfl

end Literals

section Elements

def editEntry (r : Remapper) (mixin : String) (e : String × AnnotationValue) :
    Edit (String × AnnotationValue) :=
  (remapElement r mixin e.1 e.2).map fun v => (e.1, v)

/-- The names that an element mentions are the targets that are read from it. -/
theorem ElementRenamed.names_eq (e renamed : String × AnnotationValue) (names : List String)
    (h : ElementRenamed n e renamed names) : names = elementTargets e := by
  cases h with
  | value v hnames hitems =>
    have hname : ∀ c ∈ names, ((fun item : AnnotationValue =>
        item.type?.map ClassLiteral.internalName) ∘ fun c => .type (.object c)) c = some c := by
      intro c hc
      have hreference := ClassLiteral.reference?_eq_some.2 ⟨hnames c hc, rfl⟩
      rw [Function.comp_apply, AnnotationValue.type?, Option.map_some, ClassLiteral.internalName,
        hreference, Option.getD_some]
    rw [elementTargets, if_pos rfl, hitems, List.filterMap_map, List.filterMap_congr hname,
      List.filterMap_some]
  | @targets v texts hitems =>
    have hname : ("targets" : String) ≠ "value" := by decide
    rw [elementTargets, if_neg hname, if_pos rfl, AnnotationValue.strings?_eq_some.2 hitems,
      Option.getD_some]
  | other v hvalue htargets => rw [elementTargets, if_neg hvalue, if_neg htargets]

theorem exists_elementRenamed (hn : r.naming.Undotted) (e : String × AnnotationValue)
    (h : (editEntry r mixin e).fault = none) :
    ∃ names, ElementRenamed r.naming e (editEntry r mixin e).value names := by
  obtain ⟨name, v⟩ := e
  have hfault : (remapElement r mixin name v).fault = none := h
  change ∃ names,
    ElementRenamed r.naming (name, v) (name, (remapElement r mixin name v).value) names
  by_cases hvalue : name = "value"
  · subst hvalue
    rw [remapElement, if_pos rfl] at hfault ⊢
    have hitems : ∀ x ∈ v.items, ∃ name, name ≠ "" ∧ x = .type (.object name) :=
      fun x hx => renameLiteral_fault_eq_none.1 (Edit.each_fault_eq_none.1 hfault x hx)
    obtain ⟨names, hnames, hitems⟩ := exists_names_of_literals hitems
    refine ⟨names, ?_⟩
    rw [hitems, Edit.map, value_each_renameLiteral hnames]
    exact .value v hnames hitems
  · by_cases htargets : name = "targets"
    · subst htargets
      rw [remapElement, if_neg hvalue, if_pos rfl] at hfault ⊢
      cases htexts : v.strings? with
      | none =>
        rw [htexts] at hfault
        cases hfault
      | some texts =>
        have hitems := AnnotationValue.strings?_eq_some.1 htexts
        have hspelt : texts.map (renameText r.naming) = texts.map r.naming.respell :=
          List.map_congr_left fun text _ => hn.renameText_eq text
        refine ⟨texts.map Text.slashed, ?_⟩
        dsimp only
        rw [hspelt, Edit.keep, AnnotationValue.withStrings, List.map_map]
        exact .targets v hitems
    · have hsame : (remapElement r mixin name v).value = v := by
        rw [remapElement, if_neg hvalue, if_neg htargets]
        split
        · rfl
        · exact Edit.value_check _ v
      rw [hsame]
      exact ⟨[], .other v hvalue htargets⟩

theorem heeds_check_report (location : String) (feature : Feature) (a : α) :
    (Edit.check (r.report location feature) a).Heeds r.policy := by
  rw [Remapper.check_report]
  intro gap hgap
  rw [List.mem_singleton.1 hgap]
  exact .inr rfl

theorem renameLiteral_ungapped (n : Naming) (mixin : String) (x : AnnotationValue) :
    Event.gaps (renameLiteral n mixin x).events = [] := by
  unfold renameLiteral
  split
  · split
    · rfl
    · rfl
  · rfl

theorem editEntry_heeds (r : Remapper) (mixin : String) (e : String × AnnotationValue) :
    (editEntry r mixin e).Heeds r.policy := by
  rw [editEntry, remapElement]
  split
  · exact Edit.heeds_each (fun x => Edit.heeds_of_ungapped (renameLiteral_ungapped _ _ x)) e.2.items
  · split
    · split
      · exact Edit.heeds_of_ungapped rfl
      · exact Edit.heeds_of_ungapped rfl
    · split
      · exact Edit.heeds_of_ungapped rfl
      · exact heeds_check_report "" _ e.2

/-- The walk is rejected at an element exactly if the element is misstated. -/
theorem misstated_iff (r : Remapper) (mixin : String) (e : String × AnnotationValue) :
    Misstated e ↔ ∃ f, (editEntry r mixin e).Rejected r.policy f := by
  obtain ⟨name, v⟩ := e
  rw [Misstated, editEntry]
  dsimp only
  by_cases hvalue : name = "value"
  · subst hvalue
    have hungapped : Event.gaps (Edit.each (renameLiteral r.naming mixin) v.items).events = [] :=
      Edit.each_events (p := fun events => Event.gaps events = []) rfl
        (fun _ _ => Event.gaps_append_eq_nil) fun x _ => renameLiteral_ungapped r.naming mixin x
    have hstructural := Edit.each_structural (renameLiteral_structural r.naming mixin) v.items
    have hrejected : (∃ f, ((remapElement r mixin "value" v).map fun v => ("value", v)).Rejected
        r.policy f) ↔ (Edit.each (renameLiteral r.naming mixin) v.items).fault ≠ none := by
      rw [Option.ne_none_iff_exists', remapElement, if_pos rfl]
      refine exists_congr fun f => ⟨fun h => h.fault, fun hf => ⟨hf, hstructural f hf, ?_⟩⟩
      intro gap hgap
      cases hungapped ▸ hgap
    rw [hrejected, ne_eq, Edit.each_fault_eq_none]
    simp [renameLiteral_fault_eq_none]
  · by_cases htargets : name = "targets"
    · subst htargets
      rw [remapElement, if_neg hvalue, if_pos rfl]
      have hall : v.strings? = none ↔ ∃ x ∈ v.items, ∀ text, x ≠ .string text := by
        have hsome := AnnotationValue.exists_strings? (v := v)
        rw [← Option.ne_none_iff_exists', not_iff_comm] at hsome
        simpa using hsome.symm
      cases htexts : v.strings? with
      | none =>
        have hstop := hall.1 htexts
        refine ⟨fun _ => ⟨_, rfl, rfl, fun gap hgap => ?_⟩, fun _ => .inr ⟨rfl, hstop⟩⟩
        cases hgap
      | some texts =>
        constructor
        · rintro (⟨hname, -⟩ | ⟨-, hstop⟩)
          · exact absurd hname hvalue
          · cases htexts.symm.trans (hall.2 hstop)
        · rintro ⟨f, hf⟩
          cases hf.fault
    · constructor
      · rintro (⟨hname, -⟩ | ⟨hname, -⟩)
        · exact absurd hname hvalue
        · exact absurd hname htargets
      · rintro ⟨f, hf⟩
        rw [remapElement, if_neg hvalue, if_neg htargets] at hf
        split at hf
        · cases hf.fault
        · rw [Remapper.check_report] at hf
          exact absurd hf.fault (hf.unrefused _ (List.mem_singleton_self _))

end Elements

section Annotations

theorem isMixin_eq_true {a : Annotation} : isMixin a = true ↔ a.desc = Vocabulary.mixin :=
  beq_iff_eq

theorem any_isMixin_eq_true {annotations : List Annotation} :
    annotations.any isMixin = true ↔ ∃ a ∈ annotations, a.desc = Vocabulary.mixin := by
  rw [List.any_eq_true]
  exact exists_congr fun a => and_congr_right fun _ => isMixin_eq_true

theorem remap_mixin (r : Remapper) (mixin : String)
    (elements : List (String × AnnotationValue)) :
    remap r mixin ⟨Vocabulary.mixin, elements⟩ =
      (Edit.each (editEntry r mixin) elements).map (⟨Vocabulary.mixin, ·⟩) :=
  if_pos (isMixin_eq_true.2 rfl)

theorem targetNames_eq_flatMap (annotations : List Annotation) :
    targetNames annotations = annotations.flatMap fun a => targetNames [a] := by
  induction annotations with
  | nil => rfl
  | cons a rest ih =>
    rw [List.flatMap_cons, ← ih, targetNames, targetNames, targetNames, ← List.flatMap_append,
      ← List.filter_append]
    rfl

theorem AnnotationRenamed.names_eq (a renamed : Annotation) (names : List String)
    (h : AnnotationRenamed n a renamed names) : names = targetNames [a] := by
  cases h with
  | mixin helements =>
    rw [helements.names_eq ElementRenamed.names_eq]
    exact (List.append_nil _).symm
  | other a hdesc =>
    have hmixin := mt isMixin_eq_true.1 hdesc
    rw [targetNames, List.filter_cons_of_neg hmixin]
    rfl

theorem Collected.eq_targetNames {annotations renamed : List Annotation} {names : List String}
    (h : Collected (AnnotationRenamed n) annotations renamed names) :
    names = targetNames annotations := by
  rw [targetNames_eq_flatMap]
  exact h.names_eq AnnotationRenamed.names_eq

theorem exists_annotationRenamed (hn : r.naming.Undotted) (a : Annotation)
    (h : (remap r mixin a).fault = none) :
    ∃ names, AnnotationRenamed r.naming a (remap r mixin a).value names := by
  by_cases hdesc : a.desc = Vocabulary.mixin
  · obtain ⟨desc, elements⟩ := a
    subst hdesc
    rw [remap_mixin] at h ⊢
    obtain ⟨names, helements⟩ := exists_collected (exists_elementRenamed hn) h
    exact ⟨names, .mixin helements⟩
  · have hmixin : isMixin a = false := by
      rw [← Bool.not_eq_true, isMixin_eq_true]
      exact hdesc
    rw [(remap_other r mixin hmixin).1]
    exact ⟨[], .other a hdesc⟩

end Annotations

/-- The walk over the declarations of a class comes to this element: nothing that stands before it
stops the walk. -/
def Reached (r : Remapper) (c : MixinClass) (e : String × AnnotationValue) : Prop :=
  ∃ before front back after,
    c.annotations = before ++ ⟨Vocabulary.mixin, front ++ e :: back⟩ :: after ∧
      (r.remapDeclarations
        { c with annotations := before ++ [⟨Vocabulary.mixin, front⟩] }).fault = none

section Stopping

variable {c : MixinClass} {f : Fault}

theorem remap_heeds (r : Remapper) (mixin : String) (a : Annotation) :
    (remap r mixin a).Heeds r.policy := by
  rw [remap]
  split
  · exact Edit.heeds_each (editEntry_heeds r mixin) a.elements
  · split
    · exact heeds_check_report "" _ a
    · exact Edit.heeds_of_ungapped rfl

theorem rejected_of_reached {e : String × AnnotationValue} (h : Reached r c e)
    (he : (editEntry r c.name e).Rejected r.policy f) :
    (r.remapDeclarations c).Rejected r.policy f := by
  obtain ⟨before, front, back, after, hannotations, hcompleted⟩ := h
  have hall := Edit.each_fault_eq_none.1 hcompleted
  have hbefore : (Edit.each (remap r c.name) before).fault = none :=
    Edit.each_fault_eq_none.2 fun a ha => hall a (List.mem_append_left _ ha)
  have hfront : (Edit.each (editEntry r c.name) front).fault = none := by
    have hlast := hall ⟨Vocabulary.mixin, front⟩ (by simp)
    rwa [remap_mixin] at hlast
  have hnode : (remap r c.name ⟨Vocabulary.mixin, front ++ e :: back⟩).Rejected r.policy f := by
    rw [remap_mixin]
    exact (he.each (editEntry_heeds r c.name) hfront back).map _
  rw [Remapper.remapDeclarations, hannotations]
  exact (hnode.each (remap_heeds r c.name) hbefore after).map _

/-- What the walk is rejected for is an element that it has come to. -/
theorem exists_reached (h : (r.remapDeclarations c).Rejected r.policy f) :
    ∃ e, Reached r c e ∧ (editEntry r c.name e).Rejected r.policy f := by
  obtain ⟨before, a, after, hannotations, hbefore, ha⟩ := Edit.Rejected.of_each h.of_map
  have hdesc : a.desc = Vocabulary.mixin := by
    by_contra hdesc
    rw [remap, if_neg (mt isMixin_eq_true.1 hdesc)] at ha
    split at ha
    · rw [Remapper.check_report] at ha
      exact ha.unrefused _ (List.mem_singleton_self _) ha.fault
    · cases ha.fault
  obtain ⟨desc, elements⟩ := a
  subst hdesc
  rw [remap_mixin] at ha
  obtain ⟨front, e, back, rfl, hfront, he⟩ := Edit.Rejected.of_each ha.of_map
  refine ⟨e, ⟨before, front, back, after, hannotations, ?_⟩, he⟩
  have hnode : (remap r c.name ⟨Vocabulary.mixin, front⟩).fault = none := by
    rw [remap_mixin]
    exact hfront
  rw [Remapper.remapDeclarations]
  dsimp only
  rw [Edit.map, Edit.each_append_of_none hbefore, Edit.each_cons_of_none hnode]
  rfl

end Stopping

end Declaration

open Declaration (AnnotationRenamed Collected Misstated Reached)

/-- The walk over the declarations renames every target once, where it stands, and hands the names
as they were before to the members, each class once and in the order of first mention. It is
rejected exactly if it comes to an element that is misstated; and whatever stops it, nothing is done
for the members then. -/
theorem declarations_hand_over_source_names (r : Remapper) (c : MixinClass)
    (hn : r.naming.Undotted) :
    let run := r.remapDeclarations c
    (run.fault = none → ∃ renamed names, ∃ t : TargetSet,
      Collected (AnnotationRenamed r.naming) c.annotations renamed names ∧
      run.value = { c with annotations := renamed } ∧
      t.classes = names.eraseDups ∧ (∀ d, t.contains d = true ↔ d ∈ names) ∧
      t.size = names.eraseDups.length ∧
      r.remapClass c = if ∃ a ∈ c.annotations, a.desc = Vocabulary.mixin then
        run.andThen (r.remapMembers t) else run) ∧
    ((∃ f, run.Rejected r.policy f) ↔ ∃ e, Reached r c e ∧ Misstated e) ∧
    ((∀ gap f, r.policy.refusal gap = some f → f.isStructural = false) →
      ((∃ f, run.fault = some f ∧ f.isStructural = true) ↔ ∃ e, Reached r c e ∧ Misstated e)) ∧
    (∀ f, run.fault = some f → r.remapClass c = run ∧ run.value.slots = c.slots ∧
      Event.renames run.events = []) := by
  intro run
  have hrejected : (∃ f, run.Rejected r.policy f) ↔ ∃ e, Reached r c e ∧ Misstated e := by
    constructor
    · rintro ⟨f, hf⟩
      obtain ⟨e, hreached, he⟩ := Declaration.exists_reached hf
      exact ⟨e, hreached, (Declaration.misstated_iff r c.name e).2 ⟨f, he⟩⟩
    · rintro ⟨e, hreached, hmisstated⟩
      obtain ⟨f, he⟩ := (Declaration.misstated_iff r c.name e).1 hmisstated
      exact ⟨f, Declaration.rejected_of_reached hreached he⟩
  refine ⟨fun hcompleted => ?_, hrejected, fun hp => ?_, fun f hf => ⟨?_, rfl, ?_⟩⟩
  · obtain ⟨names, hcollected⟩ :=
      Declaration.exists_collected (Declaration.exists_annotationRenamed hn) hcompleted
    obtain rfl := hcollected.eq_targetNames
    refine ⟨_, _, Declaration.targets c.annotations, hcollected, rfl, ?_, fun d => ?_, ?_, ?_⟩
    · exact TargetSet.classes_ofList _
    · rw [TargetSet.contains_eq_true]
      exact TargetSet.mem_ofList
    · exact congrArg List.length (TargetSet.classes_ofList _)
    · by_cases hmixin : ∃ a ∈ c.annotations, a.desc = Vocabulary.mixin
      · have hany := Declaration.any_isMixin_eq_true.2 hmixin
        rw [if_pos hmixin, Remapper.remapClass, hany]
        rfl
      · have hany := mt Declaration.any_isMixin_eq_true.1 hmixin
        rw [if_neg hmixin, Remapper.remapClass]
        simp only [if_neg hany]
        exact Edit.andThen_keep run
  · rw [← hrejected]
    exact exists_congr fun f => (Edit.rejected_iff hp).symm
  · exact r.remapClass_of_refused c hf
  · exact r.remapDeclarations_silent c

/-- Two classes that take each other's names, mentioned more than once and in both spellings. The
members are given the old names. A literal of an array stops the walk. -/
theorem exchanged_targets_in_two_spellings :
    let table := (MappingTable.empty.withClass "a/A" "b/B").withClass "b/B" "a/A"
    let r : Remapper := ⟨table.naming, .empty, .failFast⟩
    let mixin (annotations : List Annotation) : MixinClass := ⟨"m/M", [], annotations, [], []⟩
    let c := mixin [⟨Vocabulary.mixin, [("targets", .strings ["b.B", "b/B"])]⟩,
      ⟨Vocabulary.mixin, [("priority", .int 5), ("value", .type (.object "a/A")),
        ("targets", .string "b/B")]⟩]
    let torn := mixin [⟨Vocabulary.mixin, [("value", .type ⟨"[La/A;"⟩)]⟩]
    r.naming.Undotted ∧ (r.remapDeclarations c).fault = none ∧
      (∃ t : TargetSet, t.classes = ["b/B", "a/A"] ∧
        r.remapClass c = (r.remapDeclarations c).andThen (r.remapMembers t)) ∧
      ((r.remapDeclarations c).value.annotations.map fun a => (a.names,
          (a.get? "value").bind AnnotationValue.type?,
          (a.get? "targets").bind AnnotationValue.strings?)) =
        [(["targets"], none, some ["a.A", "a/A"]),
          (["priority", "value", "targets"], some (.object "b/B"), some ["a/A"])] ∧
      (∃ f, (r.remapDeclarations torn).Rejected r.policy f) ∧
      ∃ f, (r.remapDeclarations torn).fault = some f ∧ f.isStructural = true := by
  intro table r mixin c torn
  have hn : r.naming.Undotted :=
    (Naming.undotted_empty.withClass "a/A" (by decide)).withClass "b/B" (by decide)
  have hcompleted : (r.remapDeclarations c).fault = none := by decide +kernel
  obtain ⟨hdone, -, -⟩ := declarations_hand_over_source_names r c hn
  obtain ⟨renamed, names, t, hcollected, -, hclasses, -, -, hrun⟩ := hdone hcompleted
  obtain ⟨-, hrejected, hstops, -⟩ := declarations_hand_over_source_names r torn hn
  have hnames : names.eraseDups = ["b/B", "a/A"] := by
    rw [hcollected.eq_targetNames]
    decide +kernel
  rw [if_pos ⟨_, List.mem_cons_self, rfl⟩] at hrun
  have hmisstated : Misstated ("value", .type ⟨"[La/A;"⟩) := by
    refine .inl ⟨rfl, .type ⟨"[La/A;"⟩, List.mem_singleton_self _, ?_⟩
    intro name hname heq
    have hnone : (⟨"[La/A;"⟩ : ClassLiteral).reference? = none := by decide +kernel
    have hsome := ClassLiteral.reference?_eq_some.2 ⟨hname, (AnnotationValue.type.inj heq).symm⟩
    cases hnone.symm.trans hsome
  have hreached : Reached r torn ("value", .type ⟨"[La/A;"⟩) := ⟨[], [], [], [], rfl, rfl⟩
  refine ⟨hn, hcompleted, ⟨t, hclasses.trans hnames, hrun⟩, ?_,
    hrejected.2 ⟨_, hreached, hmisstated⟩, (hstops ?_).2 ⟨_, hreached, hmisstated⟩⟩
  · decide +kernel
  · rintro gap f ⟨⟩
    rfl

end MixinNaming
