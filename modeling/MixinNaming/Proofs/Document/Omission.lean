import Mathlib.Data.List.Forall2
import MixinNaming.Document.Decode
/-! Documents that leave fields out. A list that is empty and a superclass that is null need not be
written; a structure is read from what is left as if they were there. -/
namespace MixinNaming

namespace Json

def defaultLists : List String :=
  ["interfaces", "annotations", "methods", "fields", "values", "members"]

inductive IsDefault : String → Json → Prop where
  | list {name : String} (h : name ∈ defaultLists) : IsDefault name (.array [])
  | superclass : IsDefault "superclass" .null

theorem IsDefault.name_mem {name : String} {j : Json} (h : IsDefault name j) :
    name ∈ "superclass" :: defaultLists := by
  cases h with
  | list h => exact List.mem_cons_of_mem _ h
  | superclass => exact List.mem_cons_self

theorem not_isDefault_string {name s : String} : ¬ IsDefault name (.string s) := nofun

theorem not_isDefault_object {name : String} {fields : List (String × Json)} :
    ¬ IsDefault name (.object fields) := nofun

/-- The fields of an object, some of the default ones left out and the others changed inside. -/
inductive FieldsOmit (R : Json → Json → Prop) :
    List (String × Json) → List (String × Json) → Prop where
  | nil : FieldsOmit R [] []
  | keep (name : String) {j k : Json} {fields rest : List (String × Json)} (h : R j k)
      (hrest : FieldsOmit R fields rest) : FieldsOmit R ((name, j) :: fields) ((name, k) :: rest)
  | drop {name : String} {j : Json} {fields rest : List (String × Json)} (h : IsDefault name j)
      (hrest : FieldsOmit R fields rest) : FieldsOmit R ((name, j) :: fields) rest

/-- The same document with some default fields left out, however deep inside. -/
inductive Omits : Json → Json → Prop where
  | same (j : Json) : Omits j j
  | array {items rest : List Json} (h : List.Forall₂ Omits items rest) :
      Omits (.array items) (.array rest)
  | object {fields rest : List (String × Json)} (h : FieldsOmit Omits fields rest) :
      Omits (.object fields) (.object rest)

mutual

def depth : Json → Nat
  | .array items => itemsDepth items + 1
  | .object fields => fieldsDepth fields + 1
  | _ => 0

def itemsDepth : List Json → Nat
  | [] => 0
  | j :: rest => max j.depth (itemsDepth rest)

def fieldsDepth : List (String × Json) → Nat
  | [] => 0
  | (_, j) :: rest => max j.depth (fieldsDepth rest)

end

theorem itemsDepth_le {items : List Json} {depth : Nat} :
    itemsDepth items ≤ depth ↔ ∀ j ∈ items, j.depth ≤ depth := by
  induction items with
  | nil => simp [itemsDepth]
  | cons j rest ih => rw [itemsDepth, Nat.max_le, ih, List.forall_mem_cons]

theorem fieldsDepth_le {fields : List (String × Json)} {depth : Nat} :
    fieldsDepth fields ≤ depth ↔ ∀ f ∈ fields, f.2.depth ≤ depth := by
  induction fields with
  | nil => simp [fieldsDepth]
  | cons f rest ih => rw [fieldsDepth, Nat.max_le, ih, List.forall_mem_cons]

theorem Omits.exists_items {items : List Json} {k : Json} (h : (Json.array items).Omits k) :
    ∃ rest, k = .array rest ∧ List.Forall₂ Omits items rest := by
  cases h with
  | same => exact ⟨items, rfl, List.forall₂_same.2 fun j _ => .same j⟩
  | array hitems => exact ⟨_, rfl, hitems⟩

theorem fieldsOmit_refl (fields : List (String × Json)) : FieldsOmit Omits fields fields := by
  induction fields with
  | nil => exact .nil
  | cons f rest ih => exact .keep f.1 (.same f.2) ih

theorem Omits.exists_fields {fields : List (String × Json)} {k : Json}
    (h : (Json.object fields).Omits k) :
    ∃ rest, k = .object rest ∧ FieldsOmit Omits fields rest := by
  cases h with
  | same => exact ⟨fields, rfl, fieldsOmit_refl fields⟩
  | object hfields => exact ⟨_, rfl, hfields⟩

/-- Nothing can be left out of a text. -/
theorem Omits.eq_string {s : String} {k : Json} (h : (Json.string s).Omits k) : k = .string s := by
  cases h with
  | same => rfl

def OmitsWithin (depth : Nat) (j k : Json) : Prop := j.Omits k ∧ k.depth ≤ depth

theorem FieldsOmit.within {fields rest : List (String × Json)} {depth : Nat}
    (h : FieldsOmit Omits fields rest) (hdepth : fieldsDepth rest ≤ depth) :
    FieldsOmit (OmitsWithin depth) fields rest := by
  rw [fieldsDepth_le] at hdepth
  induction h with
  | nil => exact .nil
  | keep name h _ ih =>
    rw [List.forall_mem_cons] at hdepth
    exact .keep name ⟨h, hdepth.1⟩ (ih hdepth.2)
  | drop h _ ih => exact .drop h (ih hdepth)

theorem forall₂_within {items rest : List Json} {depth : Nat}
    (h : List.Forall₂ Omits items rest) (hdepth : itemsDepth rest ≤ depth) :
    List.Forall₂ (OmitsWithin depth) items rest := by
  rw [itemsDepth_le] at hdepth
  induction h with
  | nil => exact .nil
  | cons h _ ih =>
    rw [List.forall_mem_cons] at hdepth
    exact .cons ⟨h, hdepth.1⟩ (ih hdepth.2)

end Json

namespace Decode

open Json

variable {R : Json → Json → Prop}

/-- What a reader finds for a field that was written: the field, or nothing if it says no more. -/
inductive Found (R : Json → Json → Prop) : String × Json → Option Json → Prop where
  | present {name : String} {j k : Json} (h : R j k) : Found R (name, j) (some k)
  | absent {name : String} {j : Json} (h : IsDefault name j) : Found R (name, j) none

/-- Leaving fields out adds no field. -/
theorem filter_of_omits {fields rest : List (String × Json)} (h : FieldsOmit R fields rest)
    {name : String} (hname : name ∉ fields.map (·.1)) :
    (rest.filter fun f => f.1 == name) = [] := by
  induction h with
  | nil => rfl
  | keep other _ _ ih =>
    rw [List.map_cons, List.mem_cons, not_or] at hname
    rw [List.filter_cons_of_neg (by simpa using Ne.symm hname.1), ih hname.2]
  | drop _ _ ih =>
    rw [List.map_cons, List.mem_cons, not_or] at hname
    exact ih hname.2

theorem fieldOf_of_omits {fields rest : List (String × Json)} (h : FieldsOmit R fields rest)
    (hnames : (fields.map (·.1)).Nodup) {f : String × Json} (hf : f ∈ fields) :
    ∃ found, fieldOf rest f.1 = some found ∧ Found R f found := by
  induction h with
  | nil => cases hf
  | @keep name j k fields rest h hrest ih =>
    rw [List.map_cons, List.nodup_cons] at hnames
    rcases List.mem_cons.1 hf with rfl | hmem
    · refine ⟨some k, ?_, .present h⟩
      rw [fieldOf, List.filter_cons_of_pos (by simp), filter_of_omits hrest hnames.1]
    · have hne : name ≠ f.1 := by
        rintro rfl
        exact hnames.1 (List.mem_map.2 ⟨f, hmem, rfl⟩)
      obtain ⟨found, hfound, hR⟩ := ih hnames.2 hmem
      refine ⟨found, ?_, hR⟩
      rw [← hfound, fieldOf, fieldOf, List.filter_cons_of_neg (by simpa using hne)]
  | @drop name j fields rest h hrest ih =>
    rw [List.map_cons, List.nodup_cons] at hnames
    rcases List.mem_cons.1 hf with rfl | hmem
    · refine ⟨none, ?_, .absent h⟩
      rw [fieldOf, filter_of_omits hrest hnames.1]
    · exact ih hnames.2 hmem

/-- A structure is read field by field, in the order in which its fields are declared. -/
theorem structureFields_of_omits {fields rest : List (String × Json)}
    (h : FieldsOmit R fields rest) (hnames : (fields.map (·.1)).Nodup) :
    ∃ found, structureFields (fields.map (·.1)) (.object rest) = some found ∧
      List.Forall₂ (Found R) fields found := by
  have hfound : ∀ f ∈ fields, ∃ found, fieldOf rest f.1 = some found ∧ Found R f found :=
    fun f hf => fieldOf_of_omits h hnames hf
  clear h hnames
  rw [structureFields]
  induction fields with
  | nil => exact ⟨[], rfl, .nil⟩
  | cons f fields ih =>
    rw [List.forall_mem_cons] at hfound
    obtain ⟨head, hhead, hf⟩ := hfound.1
    obtain ⟨tail, htail, hfields⟩ := ih hfound.2
    refine ⟨head :: tail, ?_, .cons hf hfields⟩
    rw [List.map_cons, List.mapM_cons, hhead, htail]
    rfl

end Decode

end MixinNaming
