import Mathlib.Tactic.Tauto
import MixinNaming.MappingTable
import MixinNaming.Proofs.Descriptor.Grammar
import MixinNaming.Proofs.Selector.Grammar
/-! The target-namespace selector of a member reads back. Names that a selector can hold take the
places of such names, so what is printed is again the rendering of legal parts. -/
namespace MixinNaming

open Selector (LegalOwner LegalName LegalDesc ofMember)

structure Naming.WellFormed (n : Naming) : Prop where
  classes : ∀ c renamed, n.class? c = some renamed →
    (⟨some renamed, none, none⟩ : Selector).WellFormed
  members : ∀ m : MemberRef,
    n.member m = m.name ∨ (⟨none, some (n.member m), none⟩ : Selector).WellFormed

/-- What a naming makes of one member, of its owner and of the classes in its descriptor are names
that a selector can hold, or unchanged. -/
structure Naming.WellFormedAt (n : Naming) (m : MemberRef) : Prop where
  classes : ∀ c ∈ m.owner :: Descriptor.visitedNames m.desc,
    n.className c = c ∨ (⟨some (n.className c), none, none⟩ : Selector).WellFormed
  member : n.member m = m.name ∨ (⟨none, some (n.member m), none⟩ : Selector).WellFormed

structure MappingTable.WellFormed (t : MappingTable) : Prop where
  classes : ∀ e ∈ t.classes.entries, (⟨some e.2, none, none⟩ : Selector).WellFormed
  members : ∀ e ∈ t.members.entries, (⟨none, some e.2, none⟩ : Selector).WellFormed

def Hierarchy.WellFormed (h : Hierarchy) : Prop :=
  ∀ e ∈ h.classes.entries, ∀ m ∈ e.2.members, (ofMember ⟨e.1, m.name, m.desc⟩).WellFormed

theorem MappingTable.WellFormed.naming {t : MappingTable} (h : t.WellFormed) :
    t.naming.WellFormed where
  classes c renamed hc := h.classes (c, renamed) (Table.mem_of_get? hc)
  members m := by
    have hmember : t.naming.member m = t.memberName m := ite_self _
    rw [hmember, memberName]
    cases hm : t.members.get? m with
    | none => exact .inl rfl
    | some renamed => exact .inr (h.members (m, renamed) (Table.mem_of_get? hm))

namespace FieldType

variable {t : FieldType} {c : Char}

/-- Every character of a rendered type was there before, or belongs to a new name. -/
theorem mem_chars_mapNames {f : String → String} (h : c ∈ (t.mapNames f).chars) :
    c ∈ t.chars ∨ ∃ name, t.className? = some name ∧ c ∈ (f name).toList := by
  obtain ⟨dimensions, base⟩ := t
  cases base with
  | primitive p => exact .inl h
  | reference name =>
    simp only [chars, mapNames, BaseType.mapNames, BaseType.chars, List.mem_append, List.mem_cons,
      List.not_mem_nil, or_false] at h ⊢
    rcases h with h | h | h | h
    · exact .inl (.inl h)
    · exact .inl (.inr (.inl h))
    · exact .inr ⟨name, rfl, h⟩
    · exact .inl (.inr (.inr (.inr h)))

theorem mem_chars_of_className {name : String} (h : t.className? = some name)
    (hc : c ∈ name.toList) : c ∈ t.chars := by
  obtain ⟨dimensions, base⟩ := t
  cases base with
  | primitive p => cases h
  | reference other =>
    cases h
    simp [chars, BaseType.chars, hc]

end FieldType

namespace Descriptor

variable {t : Descriptor} {c : Char}

theorem mem_chars : c ∈ t.chars ↔ (∃ u ∈ t.types, c ∈ u.chars) ∨
    ∃ m, t = .method m ∧ (c = '(' ∨ c = ')' ∨ m.result = none ∧ c = 'V') := by
  cases t with
  | field t => simp [chars, types]
  | method m =>
    obtain ⟨arguments, result⟩ := m
    cases result with
    | none =>
      simp only [chars, types, MethodType.chars, MethodType.types, resultChars, List.mem_cons,
        List.mem_append, List.mem_flatMap, List.not_mem_nil, or_false, Option.toList_none,
        List.append_nil, method.injEq, exists_eq_left', true_and]
      exact or_left_comm
    | some t =>
      simp only [chars, types, MethodType.chars, MethodType.types, resultChars, List.mem_cons,
        List.mem_append, List.mem_flatMap, List.not_mem_nil, or_false, Option.toList_some,
        method.injEq, exists_eq_left', reduceCtorEq, false_and, or_and_right, exists_or,
        exists_eq_left]
      generalize (∃ u ∈ arguments, c ∈ u.chars) = inside
      tauto

theorem mem_chars_mapNames {f : String → String} (h : c ∈ (t.mapNames f).chars) :
    c ∈ t.chars ∨ ∃ name ∈ t.classNames, c ∈ (f name).toList := by
  rcases mem_chars.1 h with ⟨u, hu, hc⟩ | ⟨m, hm, hc⟩
  · rw [types_mapNames] at hu
    obtain ⟨v, hv, rfl⟩ := List.mem_map.1 hu
    rcases FieldType.mem_chars_mapNames hc with hc | ⟨name, hname, hc⟩
    · exact .inl (mem_chars.2 (.inl ⟨v, hv, hc⟩))
    · exact .inr ⟨name, List.mem_filterMap.2 ⟨v, hv, hname⟩, hc⟩
  · cases t with
    | field t => cases hm
    | method m' =>
      cases hm
      refine .inl (mem_chars.2 (.inr ⟨m', rfl, ?_⟩))
      simpa [MethodType.mapNames] using hc

theorem mem_chars_of_classNames {name : String} (h : name ∈ t.classNames)
    (hc : c ∈ name.toList) : c ∈ t.chars := by
  obtain ⟨u, hu, hname⟩ := List.mem_filterMap.1 h
  exact mem_chars.2 (.inl ⟨u, hu, FieldType.mem_chars_of_className hname hc⟩)

end Descriptor

namespace Naming

variable {n : Naming}

theorem WellFormed.wellFormedAt (hn : n.WellFormed) (m : MemberRef) : n.WellFormedAt m where
  classes c _ := by
    rw [Naming.className]
    cases hc : n.class? c with
    | none => exact .inl rfl
    | some renamed => exact .inr (hn.classes c renamed hc)
  member := hn.members m

theorem legalClassName_of_legalOwner {name : String} (h : LegalOwner name) :
    LegalClassName name := by
  refine ⟨h.1, fun c hc => ?_⟩
  have hchar := h.2 c hc
  simp only [List.mem_cons, List.not_mem_nil, or_false, not_or] at hchar
  simp [isNameChar, hchar]

variable {m : MemberRef} {desc : String}

/-- The characters of a renamed descriptor are its own and those of well-formed class names. -/
theorem WellFormedAt.signature_chars (hn : n.WellFormedAt m) (h : n.signature m.desc = .ok desc)
    {c : Char} (hc : c ∈ desc.toList) :
    c ∈ m.desc.toList ∨ c ≠ ':' ∧ Text.isWhiteSpace c = false := by
  have hclass := fun c hmem => hn.classes c (List.mem_cons_of_mem _ hmem)
  obtain ⟨t, hlegal, hold, rfl⟩ := Descriptor.mapClassNames_eq_ok_iff.1 h
  rw [← hold, Descriptor.visitedNames_render hlegal] at hclass
  rw [← hold]
  rw [Descriptor.render, String.toList_ofList] at hc ⊢
  rcases Descriptor.mem_chars_mapNames hc with hc | ⟨name, hname, hc⟩
  · exact .inl hc
  · rcases hclass name hname with heq | hwell
    · rw [heq] at hc
      exact .inl (Descriptor.mem_chars_of_classNames hname hc)
    · refine .inr ⟨?_, hwell.spaceless _ (by simp) c hc⟩
      rintro rfl
      exact (hwell.owner _ rfl).2 ':' hc (by simp)

/-- Every class of the descriptor becomes a name that a descriptor can hold. -/
theorem WellFormedAt.legalClassName (hn : n.WellFormedAt m) (hdesc : LegalDesc m.desc) {c : String}
    (hc : c ∈ Descriptor.visitedNames m.desc) : LegalClassName (n.className c) := by
  rcases hn.classes c (List.mem_cons_of_mem _ hc) with heq | hwell
  · obtain ⟨t, hlegal, hrender⟩ := Descriptor.validate_eq_ok_iff.1 hdesc.1
    rw [← hrender, Descriptor.visitedNames_render hlegal] at hc
    rw [heq]
    exact Descriptor.legal_iff.1 hlegal c hc
  · exact legalClassName_of_legalOwner (hwell.owner _ rfl)

theorem WellFormedAt.legalDesc (hn : n.WellFormedAt m) (hdesc : LegalDesc m.desc)
    (h : n.signature m.desc = .ok desc) : LegalDesc desc := by
  have hchars := fun {c} => hn.signature_chars h (c := c)
  have hclass := fun c hc => hn.legalClassName hdesc (c := c) hc
  obtain ⟨t, hlegal, hold, rfl⟩ := Descriptor.mapClassNames_eq_ok_iff.1 h
  rw [← hold, Descriptor.visitedNames_render hlegal] at hclass
  have hmapped : (t.mapNames n.className).Legal := Descriptor.legal_mapNames.2 hclass
  refine ⟨?_, fun hmethod hcolon => ?_⟩
  · exact Descriptor.validate_eq_ok_iff.2 ⟨_, hmapped, rfl⟩
  · rw [Descriptor.isMethod_mapNames hlegal hmapped, hold] at hmethod
    rcases hchars hcolon with hold | ⟨hne, -⟩
    · exact hdesc.2 hmethod hold
    · exact hne rfl

def target (n : Naming) (m : MemberRef) (desc : String) : MemberRef :=
  ⟨n.className m.owner, n.member m, desc⟩

theorem canonical_eq_ok {s : Selector} :
    n.canonical m = .ok s ↔
      ∃ desc, n.signature m.desc = .ok desc ∧ ofMember (n.target m desc) = s := by
  rw [canonical, except_map_eq_ok]
  rfl

/-- What a selector can name it can still name in the target namespace. -/
theorem WellFormedAt.target (hn : n.WellFormedAt m) (hm : (ofMember m).WellFormed)
    (hdesc : n.signature m.desc = .ok desc) :
    (ofMember (n.target m desc)).WellFormed := by
  have hspaceless : ∀ part : String, part = m.owner ∨ part = m.name ∨ part = m.desc →
      ∀ c ∈ part.toList, Text.isWhiteSpace c = false := by
    intro part hpart
    refine hm.spaceless part ?_
    simpa [ofMember] using hpart
  have howner : LegalOwner (n.className m.owner) ∧
      ∀ c ∈ (n.className m.owner).toList, Text.isWhiteSpace c = false := by
    rcases hn.classes m.owner List.mem_cons_self with heq | hwell
    · rw [heq]
      exact ⟨hm.owner _ rfl, hspaceless _ (.inl rfl)⟩
    · exact ⟨hwell.owner _ rfl, hwell.spaceless _ (by simp)⟩
  have hname : LegalName (n.member m) ∧
      ∀ c ∈ (n.member m).toList, Text.isWhiteSpace c = false := by
    rcases hn.member with heq | hwell
    · rw [heq]
      exact ⟨hm.name _ rfl, hspaceless _ (.inr (.inl rfl))⟩
    · exact ⟨hwell.name _ rfl, hwell.spaceless _ (by simp)⟩
  have hlegal := hn.legalDesc (hm.desc _ rfl) hdesc
  refine ⟨⟨?_, ?_, ?_⟩, fun part hpart c hc => ?_⟩
  · rintro _ ⟨⟩
    exact howner.1
  · rintro _ ⟨⟩
    exact hname.1
  · rintro _ ⟨⟩
    exact hlegal
  · simp only [ofMember, Option.toList_some, List.cons_append, List.nil_append,
      List.mem_cons, List.not_mem_nil, or_false] at hpart
    rcases hpart with rfl | rfl | rfl
    · exact howner.2 c hc
    · exact hname.2 c hc
    · rcases hn.signature_chars hdesc hc with hold | ⟨-, hspace⟩
      · exact hspaceless _ (.inr (.inr rfl)) c hold
      · exact hspace

end Naming

namespace MappingTable

variable {d out : String} {m : MemberRef} {s : Selector}

@[simp] theorem className_empty (c : String) : empty.naming.className c = c := rfl

@[simp] theorem member_empty (m : MemberRef) : empty.naming.member m = m.name := ite_self _

theorem signature_empty :
    empty.naming.signature d = .ok out ↔ Descriptor.validate d = .ok () ∧ out = d := by
  have hid : empty.naming.className = id := funext className_empty
  rw [Naming.signature, hid, Descriptor.mapClassNames_eq_ok_iff, Descriptor.validate_eq_ok_iff]
  simp only [Descriptor.mapNames_id]
  constructor
  · rintro ⟨t, hlegal, rfl, rfl⟩
    exact ⟨⟨t, hlegal, rfl⟩, rfl⟩
  · rintro ⟨⟨t, hlegal, hrender⟩, rfl⟩
    exact ⟨t, hlegal, hrender, hrender⟩

/-- Without any entry a member keeps its full name. -/
theorem canonical_empty : empty.naming.canonical m = .ok s ↔
    Descriptor.validate m.desc = .ok () ∧ s = ofMember m := by
  rw [Naming.canonical_eq_ok]
  simp only [signature_empty, Naming.target, className_empty, member_empty]
  constructor
  · rintro ⟨desc, ⟨hvalid, rfl⟩, rfl⟩
    exact ⟨hvalid, rfl⟩
  · rintro ⟨hvalid, rfl⟩
    exact ⟨m.desc, ⟨hvalid, rfl⟩, rfl⟩

end MappingTable

end MixinNaming
