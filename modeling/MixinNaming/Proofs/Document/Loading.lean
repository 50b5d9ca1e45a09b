import MixinNaming.Proofs.Document.Omission
import MixinNaming.Proofs.Table
import MixinNaming.Report
/-! Models that are written and read again. What is read back is what was written, also from a
document that leaves default fields out; only the depth of the document has to be allowed. -/
namespace MixinNaming

open Json

mutual

def AnnotationValue.doubles : AnnotationValue → List Double
  | .double d => [d]
  | .nested a => a.doubles
  | .array items => itemsDoubles items
  | _ => []

def itemsDoubles : List AnnotationValue → List Double
  | [] => []
  | v :: rest => v.doubles ++ itemsDoubles rest

def Annotation.doubles : Annotation → List Double
  | ⟨_, elements⟩ => elementsDoubles elements

def elementsDoubles : List (String × AnnotationValue) → List Double
  | [] => []
  | (_, v) :: rest => v.doubles ++ elementsDoubles rest

end

def MixinClass.doubles (c : MixinClass) : List Double :=
  (c.annotations ++ (c.methods ++ c.fields).flatMap Member.annotations).flatMap Annotation.doubles

namespace Decode

variable {α : Type} {decode : Nat → Json → Option α}

/-- A document that is read as one value, whichever default fields it leaves out. -/
def Loads (decode : Nat → Json → Option α) (j : Json) (a : α) : Prop :=
  ∀ depth k, OmitsWithin depth j k → decode depth k = some a

section Containers

variable {encode : α → Json}

theorem mapM_of_loads {depth : Nat} {as : List α} {rest : List Json}
    (h : ∀ a ∈ as, Loads decode (encode a) a)
    (hrest : List.Forall₂ (OmitsWithin depth) (as.map encode) rest) :
    rest.mapM (decode depth) = some as := by
  induction as generalizing rest with
  | nil =>
    cases hrest
    rfl
  | cons a as ih =>
    rw [List.forall_mem_cons] at h
    obtain ⟨k, more, hk, hmore, rfl⟩ := List.forall₂_cons_left_iff.1 hrest
    rw [List.mapM_cons, h.1 depth k hk, ih h.2 hmore]
    rfl

theorem loads_list {as : List α} (h : ∀ a ∈ as, Loads decode (encode a) a) :
    Loads (list decode) (.array (as.map encode)) as := by
  rintro depth k ⟨homits, hdepth⟩
  obtain ⟨rest, rfl, hrest⟩ := homits.exists_items
  cases depth with
  | zero => cases hdepth
  | succ depth => exact mapM_of_loads h (forall₂_within hrest (Nat.le_of_succ_le_succ hdepth))

theorem loads_string (s : String) : Loads (fun _ => string) (.string s) s := by
  rintro depth k ⟨homits, -⟩
  rw [homits.eq_string]
  rfl

/-- The entries of a map are no fields of a structure, so all of them are there. -/
theorem mapM_of_omits {depth : Nat} {entries : List (String × α)} {rest : List (String × Json)}
    (h : ∀ e ∈ entries, Loads decode (encode e.2) e.2)
    (hdefault : ∀ name a, ¬ IsDefault name (encode a))
    (hrest : FieldsOmit (OmitsWithin depth) (entries.map fun e => (e.1, encode e.2)) rest) :
    (rest.mapM fun f => (decode depth f.2).map fun v => (f.1, v)) = some entries := by
  induction entries generalizing rest with
  | nil =>
    cases hrest
    rfl
  | cons e entries ih =>
    rw [List.forall_mem_cons] at h
    rw [List.map_cons] at hrest
    cases hrest with
    | keep name hk hmore =>
      rw [List.mapM_cons, h.1 depth _ hk, ih h.2 hmore]
      rfl
    | drop hname => exact absurd hname (hdefault _ _)

theorem loads_table {t : Table String α} (h : ∀ e ∈ t.entries, Loads decode (encode e.2) e.2)
    (hdefault : ∀ name a, ¬ IsDefault name (encode a)) :
    Loads (table decode) (.object (t.entries.map fun e => (e.1, encode e.2))) t := by
  rintro depth k ⟨homits, hdepth⟩
  obtain ⟨rest, rfl, hrest⟩ := homits.exists_fields
  cases depth with
  | zero => cases hdepth
  | succ depth =>
    rw [table, mapM_of_omits h hdefault (hrest.within (Nat.le_of_succ_le_succ hdepth)),
      Option.map_some, t.ofList_entries]

end Containers

section Fields

variable {depth : Nat} {name : String} {j : Json} {a : α} {found : Option Json}

theorem Found.required (h : Found (OmitsWithin depth) (name, j) found)
    (hdefault : ¬ IsDefault name j) (hloads : Loads decode j a) :
    required (decode depth) found = some a := by
  cases h with
  | present hk => exact hloads depth _ hk
  | absent hname => exact absurd hname hdefault

theorem Found.text {s : String} (h : Found (OmitsWithin depth) (name, .string s) found) :
    Decode.required string found = some s :=
  Found.required h not_isDefault_string (loads_string s)

theorem Found.optional (h : Found (OmitsWithin depth) (name, j) found) {default : α}
    (hdefault : IsDefault name j → a = default) (hloads : Loads decode j a) :
    optional default (decode depth) found = some a := by
  cases h with
  | present hk => exact hloads depth _ hk
  | absent hname => rw [hdefault hname, Decode.optional]

theorem Found.list {as : List α} {encode : α → Json}
    (h : Found (OmitsWithin depth) (name, .array (as.map encode)) found)
    (hloads : ∀ a ∈ as, Loads decode (encode a) a) :
    Decode.optional [] (Decode.list decode depth) found = some as := by
  refine h.optional (fun hdefault => ?_) (loads_list hloads)
  cases as with
  | nil => rfl
  | cons a as => cases hdefault

/-- The fields of a structure are found one by one, each a level further inside. -/
theorem exists_found (names : List String) {fields : List (String × Json)} {k : Json}
    (h : OmitsWithin depth (.object fields) k) (hfields : fields.map (·.1) = names)
    (hnames : names.Nodup) :
    ∃ inner found, depth = inner + 1 ∧ structureFields names k = some found ∧
      List.Forall₂ (Found (OmitsWithin inner)) fields found := by
  subst hfields
  obtain ⟨homits, hdepth⟩ := h
  obtain ⟨rest, rfl, hrest⟩ := homits.exists_fields
  cases depth with
  | zero => cases hdepth
  | succ inner =>
    obtain ⟨found, hfound, hfields⟩ :=
      structureFields_of_omits (hrest.within (Nat.le_of_succ_le_succ hdepth)) hnames
    exact ⟨inner, found, rfl, hfound, hfields⟩

end Fields

section Structures

theorem loads_memberSignature (m : MemberSignature) : Loads memberSignature m.toJson m := by
  intro depth k h
  obtain ⟨depth, found, rfl, hfound, _ | ⟨hname, _ | ⟨hdesc, ⟨⟩⟩⟩⟩ :=
    exists_found ["name", "desc"] h rfl (by decide)
  simp only [memberSignature, hfound, Option.bind_eq_bind, Option.bind_some, hname.text,
    hdesc.text]
  rfl

theorem loads_superclass (parent : Option String) :
    Loads (fun _ => superclass) (orNull .string parent) parent := by
  rintro depth k ⟨homits, -⟩
  cases parent with
  | none =>
    cases homits
    rfl
  | some c =>
    rw [homits.eq_string]
    rfl

theorem loads_classInfo (i : ClassInfo) : Loads classInfo i.toJson i := by
  intro depth k h
  obtain ⟨depth, found, rfl, hfound,
      _ | ⟨hsuperclass, _ | ⟨hinterfaces, _ | ⟨hmembers, ⟨⟩⟩⟩⟩⟩ :=
    exists_found ["superclass", "interfaces", "members"] h rfl (by decide)
  have hparent := hsuperclass.optional (fun hdefault => (?_ : i.superclass = none))
    (loads_superclass i.superclass)
  · have hsupers : optional [] (Decode.strings depth) _ = some i.interfaces :=
      hinterfaces.list fun s _ => loads_string s
    simp only [classInfo, hfound, Option.bind_eq_bind, Option.bind_some, hparent, hsupers,
      hmembers.list fun m _ => loads_memberSignature m]
    rfl
  · cases hsuper : i.superclass with
    | none => rfl
    | some c =>
      rw [hsuper] at hdefault
      cases hdefault

theorem loads_hierarchy (h : Hierarchy) : Loads hierarchy h.toJson h := by
  intro depth k hk
  rw [hierarchy, loads_table (fun e _ => loads_classInfo e.2) (fun _ _ => not_isDefault_object)
    depth k hk]
  rfl

theorem loads_rename (r : Rename) : Loads rename r.toJson r := by
  intro depth k h
  obtain ⟨depth, found, rfl, hfound,
      _ | ⟨howner, _ | ⟨hname, _ | ⟨hdesc, _ | ⟨hnew, ⟨⟩⟩⟩⟩⟩⟩ :=
    exists_found ["owner", "name", "desc", "to"] h rfl (by decide)
  simp only [rename, hfound, Option.bind_eq_bind, Option.bind_some, howner.text, hname.text,
    hdesc.text, hnew.text]
  rfl

theorem loads_mappingFile (f : MappingFile) : Loads mappingFile f.toJson f := by
  intro depth k h
  obtain ⟨depth, found, rfl, hfound,
      _ | ⟨hclasses, _ | ⟨hmethods, _ | ⟨hfields, ⟨⟩⟩⟩⟩⟩ :=
    exists_found ["classes", "methods", "fields"] h rfl (by decide)
  have hloads : Loads (table fun _ => string) _ f.classes :=
    loads_table (fun e _ => loads_string e.2) fun _ _ => not_isDefault_string
  have htable : optional .empty (table (fun _ => string) depth) _ = some f.classes :=
    hclasses.optional (fun hdefault => absurd hdefault not_isDefault_object) hloads
  simp only [mappingFile, hfound, Option.bind_eq_bind, Option.bind_some, htable,
    hmethods.list fun r _ => loads_rename r, hfields.list fun r _ => loads_rename r]
  rfl

end Structures

section Annotations

theorem itemsToJson_eq (items : List AnnotationValue) :
    itemsToJson items = items.map AnnotationValue.toJson := by
  induction items with
  | nil => rfl
  | cons v rest ih => rw [itemsToJson, ih, List.map_cons]

theorem elementsToJson_eq (elements : List (String × AnnotationValue)) :
    elementsToJson elements = elements.map fun e => .array [.string e.1, e.2.toJson] := by
  induction elements with
  | nil => rfl
  | cons e rest ih => rw [elementsToJson, ih, List.map_cons]

theorem annotationItems_eq : annotationItems = list annotationValue := by
  funext depth j
  cases depth with
  | zero => rw [annotationItems.eq_def, list.eq_def]
  | succ depth => cases j <;> rw [annotationItems.eq_def, list.eq_def]

theorem annotationElements_eq : annotationElements = list annotationElement := by
  funext depth j
  cases depth with
  | zero => rw [annotationElements.eq_def, list.eq_def]
  | succ depth => cases j <;> rw [annotationElements.eq_def, list.eq_def]

/-- A value is written as an object whose one field cannot be left out. -/
theorem exists_body {depth : Nat} {kind : String} {body k : Json}
    (h : OmitsWithin depth (.object [(kind, body)]) k)
    (hkind : kind ∉ "superclass" :: defaultLists) :
    ∃ inner inside, depth = inner + 1 ∧ k = .object [(kind, inside)] ∧
      OmitsWithin inner body inside := by
  obtain ⟨homits, hdepth⟩ := h
  obtain ⟨rest, rfl, hrest⟩ := homits.exists_fields
  cases depth with
  | zero => cases hdepth
  | succ inner =>
    cases hrest.within (Nat.le_of_succ_le_succ hdepth) with
    | keep name hbody hnil =>
      cases hnil
      exact ⟨inner, _, rfl, rfl, hbody⟩
    | drop hdefault => exact absurd hdefault.name_mem hkind

theorem int_toInt (n : Int64) : int (.integer n.toInt) = some n := by
  rw [int, if_pos ⟨n.minValue_le_toInt, n.toInt_le⟩, Int64.ofInt_toInt]

/-- A value whose kind needs nothing but its body. -/
theorem loads_tagged {kind : String} {body : Json} {v : AnnotationValue}
    (hkind : kind ∉ "superclass" :: defaultLists)
    (h : ∀ depth inside, OmitsWithin depth body inside →
      annotationValue (depth + 1) (.object [(kind, inside)]) = some v) :
    Loads annotationValue (.object [(kind, body)]) v := by
  intro depth k hk
  obtain ⟨inner, inside, rfl, rfl, hbody⟩ := exists_body hk hkind
  exact h inner inside hbody

theorem loads_enum (desc value : String) :
    Loads annotationValue (AnnotationValue.enum desc value).toJson (.enum desc value) := by
  refine loads_tagged (by decide) fun depth inside hbody => ?_
  obtain ⟨inner, found, rfl, hfound, _ | ⟨hdesc, _ | ⟨hvalue, ⟨⟩⟩⟩⟩ :=
    exists_found ["desc", "value"] hbody rfl (by decide)
  have hfields : enumFields inside = some (desc, value) := by
    simp only [enumFields, hfound, Option.bind_eq_bind, Option.bind_some, hdesc.text, hvalue.text]
    rfl
  simp only [annotationValue, hfields]
  rfl

theorem loads_annotationElement {name : String} {v : AnnotationValue}
    (h : Loads annotationValue v.toJson v) :
    Loads annotationElement (.array [.string name, v.toJson]) (name, v) := by
  rintro depth k ⟨homits, hdepth⟩
  obtain ⟨rest, rfl, hrest⟩ := homits.exists_items
  cases depth with
  | zero => cases hdepth
  | succ depth =>
    obtain _ | ⟨hname, _ | ⟨hvalue, ⟨⟩⟩⟩ := forall₂_within hrest (Nat.le_of_succ_le_succ hdepth)
    obtain rfl := hname.1.eq_string
    rw [annotationElement, h depth _ hvalue]
    rfl

theorem loads_annotation {a : Annotation}
    (h : ∀ e ∈ a.elements, Loads annotationValue e.2.toJson e.2) : Loads node a.toJson a := by
  obtain ⟨desc, elements⟩ := a
  intro depth k hk
  unfold Annotation.toJson at hk
  rw [elementsToJson_eq] at hk
  obtain ⟨depth, found, rfl, hfound, _ | ⟨hdesc, _ | ⟨hvalues, ⟨⟩⟩⟩⟩ :=
    exists_found ["desc", "values"] hk rfl (by decide)
  have helements : optional [] (list annotationElement depth) _ = some elements :=
    hvalues.list fun e he => loads_annotationElement (h e he)
  simp only [node, hfound, hdesc.text, annotationElements_eq, Option.bind_some, helements]
  rfl

mutual

theorem loads_annotationValue : ∀ v : AnnotationValue, (∀ d ∈ v.doubles, d.IsFinite) →
    Loads annotationValue v.toJson v
  | .bool b, _ => loads_tagged (by decide) fun depth inside hbody => by
    cases hbody.1
    rfl
  | .int n, _ => loads_tagged (by decide) fun depth inside hbody => by
    cases hbody.1
    simp only [annotationValue, int_toInt]
    rfl
  | .double d, hfinite => by
    have hd : d.IsFinite := hfinite d (List.mem_singleton.2 rfl)
    rw [AnnotationValue.toJson, if_pos hd]
    refine loads_tagged (by decide) fun depth inside hbody => ?_
    cases hbody.1
    rfl
  | .string s, _ => loads_tagged (by decide) fun depth inside hbody => by
    obtain rfl := hbody.1.eq_string
    rfl
  | .type t, _ => loads_tagged (by decide) fun depth inside hbody => by
    obtain rfl := hbody.1.eq_string
    rfl
  | .enum desc value, _ => loads_enum desc value
  | .nested a, hfinite => loads_tagged (by decide) fun depth inside hbody => by
    simp only [annotationValue, loads_node a hfinite depth inside hbody]
    rfl
  | .array items, hfinite => loads_tagged (by decide) fun depth inside hbody => by
    rw [itemsToJson_eq] at hbody
    simp only [annotationValue, annotationItems_eq,
      loads_list (loads_items items hfinite) depth inside hbody]
    rfl

theorem loads_items : ∀ items : List AnnotationValue, (∀ d ∈ itemsDoubles items, d.IsFinite) →
    ∀ v ∈ items, Loads annotationValue v.toJson v
  | [], _ => nofun
  | v :: rest, hfinite => by
    rw [itemsDoubles, List.forall_mem_append] at hfinite
    exact List.forall_mem_cons.2
      ⟨loads_annotationValue v hfinite.1, loads_items rest hfinite.2⟩

theorem loads_node : ∀ a : Annotation, (∀ d ∈ a.doubles, d.IsFinite) → Loads node a.toJson a
  | ⟨_, elements⟩, hfinite => loads_annotation (loads_elements elements hfinite)

theorem loads_elements : ∀ elements : List (String × AnnotationValue),
    (∀ d ∈ elementsDoubles elements, d.IsFinite) →
    ∀ e ∈ elements, Loads annotationValue e.2.toJson e.2
  | [], _ => nofun
  | (_, v) :: rest, hfinite => by
    rw [elementsDoubles, List.forall_mem_append] at hfinite
    exact List.forall_mem_cons.2
      ⟨loads_annotationValue v hfinite.1, loads_elements rest hfinite.2⟩

end

end Annotations

section Models

theorem loads_member {m : Member} (h : ∀ a ∈ m.annotations, Loads node a.toJson a) :
    Loads member m.toJson m := by
  intro depth k hk
  obtain ⟨depth, found, rfl, hfound, _ | ⟨hname, _ | ⟨hdesc, _ | ⟨hnotes, ⟨⟩⟩⟩⟩⟩ :=
    exists_found ["name", "desc", "annotations"] hk rfl (by decide)
  have hannotations : optional [] (annotations depth) _ = some m.annotations := hnotes.list h
  simp only [member, hfound, Option.bind_eq_bind, Option.bind_some, hname.text, hdesc.text,
    hannotations]
  rfl

theorem loads_mixinClass {c : MixinClass} (hfinite : ∀ d ∈ c.doubles, d.IsFinite) :
    Loads mixinClass c.toJson c := by
  have hloads : ∀ a ∈ c.annotations ++ (c.methods ++ c.fields).flatMap Member.annotations,
      Loads node a.toJson a :=
    fun a ha => loads_node a fun d hd => hfinite d (List.mem_flatMap.2 ⟨a, ha, hd⟩)
  rw [List.forall_mem_append] at hloads
  have hmember : ∀ m ∈ c.methods ++ c.fields, Loads member m.toJson m :=
    fun m hm => loads_member fun a ha => hloads.2 a (List.mem_flatMap.2 ⟨m, hm, ha⟩)
  rw [List.forall_mem_append] at hmember
  intro depth k hk
  obtain ⟨depth, found, rfl, hfound, _ | ⟨hname, _ | ⟨hsupers, _ | ⟨hnotes, _ | ⟨hmethods,
      _ | ⟨hfields, ⟨⟩⟩⟩⟩⟩⟩⟩ :=
    exists_found ["name", "interfaces", "annotations", "methods", "fields"] hk rfl (by decide)
  have hinterfaces : optional [] (Decode.strings depth) _ = some c.interfaces :=
    hsupers.list fun s _ => loads_string s
  have hannotations : optional [] (annotations depth) _ = some c.annotations :=
    hnotes.list hloads.1
  simp only [mixinClass, hfound, Option.bind_eq_bind, Option.bind_some, hname.text, hinterfaces,
    hannotations, hmethods.list hmember.1, hfields.list hmember.2]
  rfl

theorem loads_report {r : Report} (hfinite : ∀ d ∈ r.mixin.doubles, d.IsFinite) :
    Loads report r.toJson r := by
  intro depth k hk
  obtain ⟨depth, found, rfl, hfound, _ | ⟨hclass, _ | ⟨hrenames, ⟨⟩⟩⟩⟩ :=
    exists_found ["class", "renames"] hk rfl (by decide)
  have hmixin := hclass.required not_isDefault_object (loads_mixinClass hfinite)
  have hlist := hrenames.required (fun hdefault => absurd hdefault.name_mem (by decide))
    (loads_list fun a _ => loads_rename a)
  simp only [report, hfound, Option.bind_eq_bind, Option.bind_some, hmixin, hlist]
  rfl

/-- Whatever is written is read back as it was, whichever default fields are left out on the way:
classes and reports whose numbers are finite, and class hierarchies. -/
theorem written_models_load_back :
    (∀ c : MixinClass, (∀ d ∈ c.doubles, d.IsFinite) → ∀ k, c.toJson.Omits k →
      ∀ depth, k.depth ≤ depth → mixinClass depth k = some c) ∧
    (∀ h : Hierarchy, ∀ k, h.toJson.Omits k →
      ∀ depth, k.depth ≤ depth → hierarchy depth k = some h) ∧
    ∀ r : Report, (∀ d ∈ r.mixin.doubles, d.IsFinite) → ∀ k, r.toJson.Omits k →
      ∀ depth, k.depth ≤ depth → report depth k = some r := by
  refine ⟨fun c hfinite k homits depth hdepth => ?_, fun h k homits depth hdepth => ?_,
    fun r hfinite k homits depth hdepth => ?_⟩
  · exact loads_mixinClass hfinite depth k ⟨homits, hdepth⟩
  · exact loads_hierarchy h depth k ⟨homits, hdepth⟩
  · exact loads_report hfinite depth k ⟨homits, hdepth⟩

/-- An annotation with one element name twice, that holds annotations, also inside an array, the
least number of 64 bits and the negative zero. -/
def nestingClass : MixinClass where
  name := "a/M"
  interfaces := []
  annotations :=
    [⟨"La/A;", [("x", .nested ⟨"La/B;", []⟩),
      ("x", .array [.nested ⟨"La/C;", [("y", .double ⟨0x8000000000000000⟩)]⟩,
        .int Int64.minValue])]⟩]
  methods := []
  fields := []

def nestingDocument : Json :=
  .object [("name", .string "a/M"), ("annotations", .array
    [.object [("desc", .string "La/A;"), ("values", .array
      [.array [.string "x", .object [("annotation", .object [("desc", .string "La/B;")])]],
        .array [.string "x", .object [("array", .array
          [.object [("annotation", .object [("desc", .string "La/C;"), ("values", .array
            [.array [.string "y", .object [("double", .double ⟨0x8000000000000000⟩)]]])])],
          .object [("int", .integer (-9223372036854775808))]])]]])]])]

theorem nested_annotations_load_back :
    (∀ d ∈ nestingClass.doubles, d.IsFinite) ∧ nestingClass.toJson.Omits nestingDocument ∧
      nestingDocument.depth ≤ documentDepth ∧
      mixinClass documentDepth nestingDocument = some nestingClass := by
  have hfinite : ∀ d ∈ nestingClass.doubles, d.IsFinite := by decide
  have hinner : Json.Omits (⟨"La/B;", []⟩ : Annotation).toJson
      (.object [("desc", .string "La/B;")]) :=
    .object (.keep "desc" (.same _) (.drop (.list (by decide)) .nil))
  have helement : (Json.array [.string "x", .object
      [("annotation", Annotation.toJson ⟨"La/B;", []⟩)]]).Omits
        (.array [.string "x", .object [("annotation", .object [("desc", .string "La/B;")])]]) :=
    .array (.cons (.same _) (.cons (.object (.keep "annotation" hinner .nil)) .nil))
  have homits : nestingClass.toJson.Omits nestingDocument :=
    .object (.keep "name" (.same _) (.drop (.list (by decide))
      (.keep "annotations"
        (.array (.cons (.object (.keep "desc" (.same _)
          (.keep "values" (.array (.cons helement (.cons (.same _) .nil))) .nil))) .nil))
        (.drop (.list (by decide)) (.drop (.list (by decide)) .nil)))))
  have hdepth : nestingDocument.depth ≤ documentDepth := by decide
  exact ⟨hfinite, homits, hdepth,
    written_models_load_back.1 nestingClass hfinite nestingDocument homits documentDepth hdepth⟩

end Models

end Decode

end MixinNaming
