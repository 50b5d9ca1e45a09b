import MixinNaming.Proofs.Qualified.References
/-! Renaming in two steps. A selector that names its member in full is resolved without the targets,
the filter and the hierarchy, and what is printed reads back as the member it was printed for. So a
second naming goes on exactly where the first one has stopped. -/
namespace MixinNaming

open Selector (LegalDesc ofMember)

/-- On one member, its owner and the classes in its descriptor, `whole` is `first` and then
`second`. -/
structure Naming.ComposesAt (first second whole : Naming) (m : MemberRef) : Prop where
  classes : ∀ c ∈ m.owner :: Descriptor.visitedNames m.desc,
    whole.className c = second.className (first.className c)
  member : ∀ desc, first.signature m.desc = .ok desc →
    whole.member m = second.member (first.target m desc)

structure Naming.InvertedAt (first second : Naming) (m : MemberRef) : Prop where
  classes : ∀ c ∈ m.owner :: Descriptor.visitedNames m.desc,
    second.className (first.className c) = c
  member : ∀ desc, first.signature m.desc = .ok desc →
    second.member (first.target m desc) = m.name

namespace Naming

variable {first second whole : Naming} {m : MemberRef} {desc : String}

theorem InvertedAt.composesAt (h : first.InvertedAt second m) :
    first.ComposesAt second MappingTable.empty.naming m where
  classes c hc := (h.classes c hc).symm
  member desc hdesc := (MappingTable.member_empty m).trans (h.member desc hdesc).symm

theorem ComposesAt.signature (h : first.ComposesAt second whole m) (hfirst : first.WellFormedAt m)
    (hm : LegalDesc m.desc) (hdesc : first.signature m.desc = .ok desc) :
    second.signature desc = whole.signature m.desc := by
  have hlegal := fun c hc => hfirst.legalClassName hm (c := c) hc
  have htwice := Descriptor.mapClassNames_bind hlegal second.className
  have honce : Descriptor.mapClassNames (second.className ∘ first.className) m.desc =
      Descriptor.mapClassNames whole.className m.desc :=
    Descriptor.mapClassNames_congr fun c hc => (h.classes c (List.mem_cons_of_mem _ hc)).symm
  rw [Naming.signature] at hdesc
  rw [hdesc, honce] at htwice
  exact htwice

theorem ComposesAt.canonical (h : first.ComposesAt second whole m) (hfirst : first.WellFormedAt m)
    (hm : LegalDesc m.desc) (hdesc : first.signature m.desc = .ok desc) :
    second.canonical (first.target m desc) = whole.canonical m := by
  have howner := h.classes m.owner List.mem_cons_self
  rw [Naming.canonical, Naming.canonical, h.member desc hdesc, howner, Naming.target,
    h.signature hfirst hm hdesc]

/-- A descriptor that a selector can hold has one in the target namespace. -/
theorem exists_signature (n : Naming) (hm : LegalDesc m.desc) :
    ∃ desc, n.signature m.desc = .ok desc := by
  obtain ⟨t, hlegal, hrender⟩ := Descriptor.validate_eq_ok_iff.1 hm.1
  exact ⟨(t.mapNames n.className).render, Descriptor.mapClassNames_eq_ok_iff.2
    ⟨t, hlegal, hrender, rfl⟩⟩

end Naming

/-- Neither the targets nor the filter nor the hierarchy have a say in what becomes of a selector
that names its member in full. -/
theorem Remapper.resolveSelector_qualified {r : Remapper} {text : String} {m : MemberRef}
    {resolved : Selector} (hm : Selector.parse text = .ok (ofMember m))
    (hresolved : r.naming.canonical m = .ok resolved) (location : String)
    (targets : Option TargetSet) (filter : DescriptorFilter) :
    r.resolveSelector location text targets filter = .answer resolved.render := by
  have hcanonical : r.canonical location m = .answer resolved := by
    rw [Remapper.canonical, hresolved]
    rfl
  rw [Remapper.resolveSelector, hm]
  change (r.canonical location m).bind _ = _
  rw [hcanonical]
  rfl

/-- What a text becomes that names a member in full is settled by what the naming makes of that
member, its owner and the classes in its descriptor. A second run goes on from the result of the
first as a single run under the composed naming would have gone on from the text, and no gap is met
and no member looked up on the way. If the second naming takes the first one back, the text comes
back without its white space. -/
theorem qualified_selectors_compose {text : String} {s : Selector} {m : MemberRef}
    (hs : Selector.parse text = .ok s) (hm : s.qualified? = some m)
    (first second : Remapper) (hfirst : first.naming.WellFormedAt m) :
    ∃ between out : String,
      (∀ location targets filter,
        first.resolveSelector location text targets filter = .answer between) ∧
      (∀ location targets filter,
        second.resolveSelector location between targets filter = .answer out) ∧
      (∀ whole : Remapper, first.naming.ComposesAt second.naming whole.naming m →
        ∀ location targets filter,
          whole.resolveSelector location text targets filter = .answer out) ∧
      (first.naming.InvertedAt second.naming m →
        out = .ofList (Text.withoutWhiteSpace text.toList)) := by
  obtain rfl := Selector.eq_ofMember_of_qualified hm
  obtain ⟨hchars, hwell⟩ := Selector.parse_eq_ok_iff.1 hs
  have hlegal : LegalDesc m.desc := hwell.desc _ rfl
  obtain ⟨desc, hdesc⟩ := first.naming.exists_signature hlegal
  have hwellTarget := hfirst.target hwell hdesc
  have hread := Selector.parse_render hwellTarget
  obtain ⟨desc', hdesc'⟩ := second.naming.exists_signature (hwellTarget.desc _ rfl)
  have hsecond := Naming.canonical_eq_ok.2 ⟨desc', hdesc', rfl⟩
  refine ⟨_, _, Remapper.resolveSelector_qualified hs (Naming.canonical_eq_ok.2 ⟨desc, hdesc, rfl⟩),
    Remapper.resolveSelector_qualified hread hsecond, fun whole hwhole => ?_, fun hinverted => ?_⟩
  · rw [hwhole.canonical hfirst hlegal hdesc] at hsecond
    exact Remapper.resolveSelector_qualified hs hsecond
  · rw [hinverted.composesAt.canonical hfirst hlegal hdesc, MappingTable.canonical_empty] at hsecond
    rw [hsecond.2, Selector.render, hchars]

/-- A selector with white space, renamed into a table and back out of it. -/
theorem round_trip_of_spaced_selector :
    let text := " La/T ;run( [La/T;I )\tV"
    let table := (MappingTable.empty.withClass "a/T" "b/U").withMember
      ⟨⟨"a/T", "run", "([La/T;I)V"⟩, "go"⟩
    let inverse := (MappingTable.empty.withClass "b/U" "a/T").withMember
      ⟨⟨"b/U", "go", "([Lb/U;I)V"⟩, "run"⟩
    let remapper (t : MappingTable) : Remapper := ⟨t.naming, .empty, .failFast⟩
    (remapper table).resolveSelector "there" text none .any = .answer "Lb/U;go([Lb/U;I)V" ∧
      (remapper inverse).resolveSelector "back" "Lb/U;go([Lb/U;I)V" none .any =
        .answer "La/T;run([La/T;I)V" := by
  intro text table inverse remapper
  let m : MemberRef := ⟨"a/T", "run", "([La/T;I)V"⟩
  have hs : Selector.parse text = .ok (ofMember m) := by decide +kernel
  have hclass : (⟨some "b/U", none, none⟩ : Selector).WellFormed :=
    (Selector.parse_eq_ok_iff.1 (by decide +kernel : Selector.parse "Lb/U;" = .ok _)).2
  have hname : (⟨none, some "go", none⟩ : Selector).WellFormed :=
    (Selector.parse_eq_ok_iff.1 (by decide +kernel : Selector.parse "go" = .ok _)).2
  have hmember : (remapper table).naming.member m = "go" := by decide +kernel
  have hsignature : (remapper table).naming.signature m.desc = .ok "([Lb/U;I)V" := by decide +kernel
  have hwell : (remapper table).naming.WellFormedAt m := by
    refine ⟨fun c hc => ?_, by rw [hmember]; exact .inr hname⟩
    have hnames : m.owner :: Descriptor.visitedNames m.desc = ["a/T", "a/T"] := by decide +kernel
    rw [hnames] at hc
    obtain rfl : c = "a/T" := by simpa using hc
    exact .inr hclass
  have hinverted : (remapper table).naming.InvertedAt (remapper inverse).naming m := by
    refine ⟨by decide +kernel, fun desc hdesc => ?_⟩
    cases hsignature.symm.trans hdesc
    decide +kernel
  obtain ⟨between, out, hbetween, hout, -, hinverse⟩ :=
    qualified_selectors_compose hs rfl (remapper table) (remapper inverse) hwell
  have hcanonical : (remapper table).naming.canonical m =
      .ok (ofMember ⟨"b/U", "go", "([Lb/U;I)V"⟩) := by
    decide +kernel
  have hrender : (ofMember ⟨"b/U", "go", "([Lb/U;I)V"⟩).render = "Lb/U;go([Lb/U;I)V" := by
    decide +kernel
  have hthere : (remapper table).resolveSelector "there" text none .any =
      .answer "Lb/U;go([Lb/U;I)V" := by
    rw [← hrender]
    exact Remapper.resolveSelector_qualified hs hcanonical _ _ _
  have hread : Attempt.answer between = Attempt.answer "Lb/U;go([Lb/U;I)V" :=
    (hbetween "there" none .any).symm.trans hthere
  obtain rfl : between = "Lb/U;go([Lb/U;I)V" := Except.ok.inj (Attempt.mk.inj hread).2
  have hspaceless : String.ofList (Text.withoutWhiteSpace text.toList) = "La/T;run([La/T;I)V" := by
    decide +kernel
  have hback : out = "La/T;run([La/T;I)V" := (hinverse hinverted).trans hspaceless
  refine ⟨hthere, ?_⟩
  rw [← hback]
  exact hout "back" none .any

end MixinNaming
