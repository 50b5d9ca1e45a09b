import MixinNaming.Proofs.Effect.Governing
import MixinNaming.Proofs.Frame.ToleratedGaps
import MixinNaming.Proofs.Qualified.Injection
/-! The effect of @Shadow. The name of the member without its lead, if it has one, is looked for
in the hierarchies of all targets. Where nothing declares it there is a gap, where the targets
disagree the mixin is illegal, and otherwise the member takes the name on which they agree, after
its lead. -/
namespace MixinNaming

/-- A member of that name stands for a member called `shadowed`, and `final` gives its own name from
that of the other. A name that is nothing but the lead stands for itself. -/
inductive StandsUnder (lead : String) : String → String → (String → String) → Prop
  | led (rest : String) (h : rest ≠ "") : StandsUnder lead (lead ++ rest) rest (lead ++ ·)
  | bare (name : String) (h : ∀ rest, rest ≠ "" → name ≠ lead ++ rest) :
      StandsUnder lead name name id

structure Annotation.StatesShadow (node : Annotation) (lead : Option String) : Prop where
  unrepeated : node.names.Nodup
  known : ∀ name ∈ node.names, name = "prefix" ∨ name = "aliases"
  lead : node.get? "prefix" = lead.map .string
  aliases : node.SpellsAliases

theorem StandsUnder.stripLead {lead name shadowed : String} {final : String → String}
    (h : StandsUnder lead name shadowed final) :
    shadowed = (MixinNaming.stripLead lead name).getD name ∧
      final = fun newName =>
        if (MixinNaming.stripLead lead name).isSome then lead ++ newName else newName := by
  cases h with
  | led _ hrest =>
    rw [stripLead_eq_some_iff.2 ⟨hrest, rfl⟩]
    exact ⟨rfl, rfl⟩
  | bare _ hbare =>
    have hstripped : MixinNaming.stripLead lead name = none := by
      refine Option.eq_none_iff_forall_ne_some.2 fun rest hrest => ?_
      obtain ⟨hne, hname⟩ := stripLead_eq_some_iff.1 hrest
      exact hbare rest hne hname
    rw [hstripped]
    exact ⟨rfl, rfl⟩

theorem exists_standsUnder (lead name : String) :
    ∃ shadowed final, StandsUnder lead name shadowed final := by
  cases hstripped : stripLead lead name with
  | some rest =>
    obtain ⟨hrest, rfl⟩ := stripLead_eq_some_iff.1 hstripped
    exact ⟨rest, _, .led rest hrest⟩
  | none =>
    refine ⟨name, _, .bare name fun rest hrest hname => ?_⟩
    rw [stripLead_eq_some_iff.2 ⟨hrest, hname⟩] at hstripped
    cases hstripped

/-- Where no name is repeated, the last element of a name is the first. -/
theorem filterMap_string? {node : Annotation} (h : node.names.Nodup) (name : String) :
    (node.elements.filterMap fun e => if e.1 = name then e.2.string? else none) =
      ((node.get? name).bind AnnotationValue.string?).toList := by
  obtain ⟨desc, elements⟩ := node
  unfold Annotation.names at h
  unfold Annotation.get?
  dsimp only at h ⊢
  induction elements with
  | nil => rfl
  | cons e rest ih =>
    rw [List.map_cons, List.nodup_cons] at h
    rw [List.filterMap_cons]
    by_cases hname : e.1 = name
    · have hrest : (rest.filterMap fun e => if e.1 = name then e.2.string? else none) = [] := by
        refine List.filterMap_eq_nil_iff.2 fun f hf => if_neg fun hsame => h.1 ?_
        exact List.mem_map.2 ⟨f, hf, hsame.trans hname.symm⟩
      rw [if_pos hname, hrest, List.find?_cons_of_pos (by simpa using hname)]
      cases hstring : e.2.string? <;> simp [hstring]
    · rw [if_neg hname, List.find?_cons_of_neg (by simpa using hname)]
      exact ih h.2

theorem Annotation.StatesShadow.shadowLead_eq {node : Annotation} {lead : Option String}
    (h : node.StatesShadow lead) :
    shadowLead node = lead.getD Vocabulary.defaultShadowLead := by
  rw [shadowLead, filterMap_string? h.unrepeated, h.lead]
  cases lead <;> rfl

namespace Remapper

variable (r : Remapper)

structure Shadows (site : Site) (t : TargetSet) (shadowed : String) (final : String → String)
    (before : List Gap) (e : Effect) : Prop where
  undeclared : (∀ c ∈ t.classes, ¬r.hierarchy.Provides shadowed site.member.desc c) →
    e = .reporting r.policy before ⟨"", .shadowedMember site.member shadowed⟩
  torn : r.Torn .declaringTargets t shadowed site.member.desc → e.Refused before
  agreed : ∀ newName, r.Agreed .declaringTargets t shadowed site.member.desc newName →
    e.Names before site.member (site.member.isMethod = true ∧ r.Shields site t) (final newName)

/-- The run of a member that the annotation at `index` makes stand for `shadowed`. -/
structure RemapsShadow (site : Site) (t : TargetSet) (m : Member) (index : Nat) (node : Annotation)
    (shadowed : String) (final : String → String) (d : Edit Member) : Prop where
  tornAlias : r.TornAlias t m.desc node →
    d.effect.Refused (r.classifyGaps site.member m.annotations)
  effect : ¬r.TornAlias t m.desc node →
    r.Shadows site t shadowed final (r.classifyGaps site.member m.annotations) d.effect
  value : ¬r.TornAlias t m.desc node → ∃ renamed, r.NodeBecomes t m.desc node renamed ∧
    d.value = { m with annotations := m.annotations.set index renamed }

variable {r} {site : Site} {t : TargetSet} {lead shadowed : String} {final : String → String}

theorem Shadows.after {e : Effect} (h : r.Shadows site t shadowed final [] e)
    (before : List Gap) : r.Shadows site t shadowed final before (e.after before) where
  undeclared hnone := by rw [h.undeclared hnone, Effect.reporting_after]
  torn htorn := (h.torn htorn).after before
  agreed newName hagreed := (h.agreed newName hagreed).after before

theorem Shadows.renames_of_shields {e : Effect} {before : List Gap}
    (h : r.Shadows site t shadowed final before e) (hmethod : site.member.isMethod = true)
    (hshields : r.Shields site t) : e.renames = [] := by
  by_cases hvoiced : ∃ c ∈ t.classes, r.HasSay .declaringTargets shadowed site.member.desc c
  · rcases agreed_or_torn hvoiced with ⟨newName, hagreed⟩ | htorn
    · exact (h.agreed newName hagreed).renames_of_shielded ⟨hmethod, hshields⟩
    · exact (h.torn htorn).renames
  · rw [h.undeclared fun c hc hsay => hvoiced ⟨c, hc, hsay⟩]
    rfl

theorem settleShadow_of_standsUnder (h : StandsUnder lead site.member.name shadowed final) :
    r.settleShadow site t lead =
      (r.nameAcross site "@Shadow" shadowed t .declaringTargets).bind fun
        | none => r.report "" (.shadowedMember site.member shadowed)
        | some newName => r.renameShadow site t (final newName) := by
  obtain ⟨rfl, rfl⟩ := h.stripLead
  rfl

/-- Only methods can clash with an interface. -/
theorem effect_renameShadow (site : Site) (t : TargetSet) (newName : String) :
    (r.renameShadow site t newName).effect.Names [] site.member
      (site.member.isMethod = true ∧ r.Shields site t) newName := by
  refine effect_rename ?_ ?_ newName
  · split
    · exact guardInterfaces_plain site "@Shadow" t site.interfaces
    · exact .answer ()
  · cases hmethod : site.member.isMethod with
    | true =>
      rw [if_pos rfl, guardInterfaces_eq_ok_iff_not_shields, eq_self_iff_true, true_and]
    | false => simp [Attempt.answer]

theorem effect_settleShadow (h : StandsUnder lead site.member.name shadowed final) :
    r.Shadows site t shadowed final [] (r.settleShadow site t lead).effect := by
  have hplain := nameAcross_plain (r := r) site "@Shadow" shadowed t .declaringTargets
  rw [settleShadow_of_standsUnder h]
  refine ⟨fun hnone => ?_, fun htorn => ?_, fun newName hagreed => ?_⟩
  · rw [hplain.effect_bind (nameAcross_of_unvoiced site "@Shadow" hnone)]
    exact effect_report "" _
  · exact hplain.refused_bind (nameAcross_of_torn site "@Shadow" htorn) _
  · rw [hplain.effect_bind (nameAcross_of_agreed site "@Shadow" hagreed)]
    exact effect_renameShadow site t (final newName)

section Node

variable {node : Annotation} {stated : Option String}

theorem editsAliases_shadow (h : node.StatesShadow stated) :
    r.EditsAliases site "@Shadow" t node (r.remapShadowElement site t) where
  aliases v := rfl
  others := by
    intro e he hname
    have hlead := (h.known e.1 (List.mem_map_of_mem he)).resolve_right hname
    have hvalue := (get?_of_mem h.unrepeated he).symm
    rw [hlead, h.lead] at hvalue
    obtain ⟨text, -, htext⟩ := Option.map_eq_some_iff.1 hvalue.symm
    rw [hlead, ← htext]
    rfl

theorem remapShadow_effect (hdesc : node.desc = Vocabulary.shadow) (h : node.StatesShadow stated)
    (hlead : StandsUnder (stated.getD Vocabulary.defaultShadowLead) site.member.name shadowed
      final) :
    (r.TornAlias t site.member.desc node → (r.remapShadow site t node).effect.Refused []) ∧
      (¬r.TornAlias t site.member.desc node →
        r.Shadows site t shadowed final [] (r.remapShadow site t node).effect ∧
        r.NodeBecomes t site.member.desc node (r.remapShadow site t node).value) := by
  have hedits : r.EditsAliases site "@Shadow" t node (r.remapShadowElement site t) :=
    editsAliases_shadow h
  have hframe : NodeFrame node (node.editElements (r.remapShadowElement site t)).value := by
    refine .editElements fun name v => ?_
    rw [hdesc]
    exact r.remapShadowElement_frame site t name v
  have hrun : r.remapShadow site t node = (node.editElements (r.remapShadowElement site t)).andThen
      fun edited => .check (r.settleShadow site t (shadowLead edited)) edited := rfl
  obtain ⟨htorn, hsettled⟩ := hedits.settles h.aliases _ hrun
  refine ⟨htorn, fun hgood => ⟨?_, (hsettled hgood).2⟩⟩
  rw [(hsettled hgood).1, shadowLead_eq hdesc hframe, h.shadowLead_eq]
  exact effect_settleShadow hlead

/-- The same run, seen from the member whose annotation it is. -/
theorem remapMain_shadow {m : Member} {mixin : String} {index : Nat}
    (hsite : site.member = m.ref mixin) (without : Attempt Unit)
    {f : AnnotationKind → Annotation → Edit Annotation} (hf : f .shadow = r.remapShadow site t)
    (hmain : (r.classify (m.ref mixin) m.annotations).result = .ok (some ⟨index, .shadow⟩))
    (hnode : m.annotations[index]? = some node) (h : node.StatesShadow stated)
    (hlead : StandsUnder (stated.getD Vocabulary.defaultShadowLead) m.name shadowed final) :
    r.RemapsShadow site t m index node shadowed final
      ((r.remapMain site without f m.annotations).map fun annotations =>
        { m with annotations }) := by
  have hname : site.member.name = m.name := congrArg MemberRef.name hsite
  have hdesc : site.member.desc = m.desc := congrArg MemberRef.desc hsite
  rw [← hsite] at hmain
  obtain ⟨hvalue, heffect⟩ := remapMain_of_governed site without f hmain hnode
  obtain ⟨htorn, hsettled⟩ := remapShadow_effect (t := t) (desc_of_classify hmain hnode) h
    (hname ▸ hlead)
  rw [hf] at hvalue heffect
  rw [hdesc] at htorn hsettled
  refine ⟨fun hbad => ?_, fun hgood => ?_, fun hgood => ?_⟩
  · rw [Edit.effect_map, heffect]
    exact (htorn hbad).after _
  · rw [Edit.effect_map, heffect]
    exact (hsettled hgood).1.after _
  · exact ⟨_, (hsettled hgood).2, congrArg (Member.mk m.name m.desc) hvalue⟩

end Node

end Remapper

/-- A @Shadow member takes the name that the targets give the member for which it stands, and keeps
its lead. -/
theorem shadow_member_follows_its_targets {r : Remapper} {mixin : String} {m : Member}
    {index : Nat} {node : Annotation} {stated : Option String}
    (hmain : (r.classify (m.ref mixin) m.annotations).result = .ok (some ⟨index, .shadow⟩))
    (hnode : m.annotations[index]? = some node) (hstates : node.StatesShadow stated)
    (t : TargetSet) (interfaces : List String) :
    ∃ shadowed final,
      StandsUnder (stated.getD Vocabulary.defaultShadowLead) m.name shadowed final ∧
      r.RemapsShadow ⟨m.ref mixin, interfaces⟩ t m index node shadowed final
        (r.remapMethod mixin interfaces t m) ∧
      r.RemapsShadow ⟨m.ref mixin, []⟩ t m index node shadowed final (r.remapField mixin t m) := by
  obtain ⟨shadowed, final, hlead⟩ :=
    exists_standsUnder (stated.getD Vocabulary.defaultShadowLead) m.name
  refine ⟨shadowed, final, hlead, ?_, ?_⟩
  · exact Remapper.remapMain_shadow rfl _ rfl hmain hnode hstates hlead
  · exact Remapper.remapMain_shadow rfl _ rfl hmain hnode hstates hlead

/-- A target that lacks the shadowed method has no say in its name. -/
theorem shadow_of_method_in_one_of_two_targets :
    let table := MappingTable.empty.withMember ⟨⟨"a/T", "run", "()V"⟩, "go"⟩
    let hierarchy := Hierarchy.empty.withClass "a/T" (ClassInfo.empty.declaring "run" "()V")
    let r : Remapper := ⟨table.naming, hierarchy, .lenient⟩
    let node : Annotation := ⟨Vocabulary.shadow,
      [("aliases", .array [.string "old"]), ("prefix", .string "of$")]⟩
    let m : Member := ⟨"of$run", "()V", [node]⟩
    (r.classify (m.ref "x/M") m.annotations).result = .ok (some ⟨0, .shadow⟩) ∧
      node.StatesShadow (some "of$") ∧
      (r.remapMethod "x/M" ["a/I"] (.ofList ["a/U", "a/T"]) m).effect =
        ⟨[⟨m.ref "x/M", "of$go"⟩], [], none⟩ := by
  intro table hierarchy r node m
  have hmain : (r.classify (m.ref "x/M") m.annotations).result = .ok (some ⟨0, .shadow⟩) := by
    decide +kernel
  have hstates : node.StatesShadow (some "of$") := by
    refine ⟨by decide, by decide, rfl, ?_⟩
    intro e he hname
    rcases List.mem_cons.1 he with rfl | he
    · exact ⟨["old"], rfl⟩
    · cases List.mem_singleton.1 he
      exact absurd hname (by decide)
  have honly : ∀ name c, r.hierarchy.Provides name "()V" c → c = "a/T" := by
    intro name c hprovides
    by_contra hne
    refine Hierarchy.not_provides_of_unknown ?_ hprovides
    exact (Table.get?_insert .empty "a/T" c _).trans (if_neg (by simpa using hne))
  refine ⟨hmain, hstates, ?_⟩
  obtain ⟨shadowed, final, hlead, hmethod, -⟩ :=
    shadow_member_follows_its_targets hmain rfl hstates (.ofList ["a/U", "a/T"]) ["a/I"]
  have hstripped : stripLead "of$" "of$run" = some "run" := by decide +kernel
  obtain ⟨hshadowed, hfinal⟩ := hlead.stripLead
  simp only [Option.getD_some, m, hstripped] at hshadowed hfinal
  subst hshadowed hfinal
  have haliases : ¬r.TornAlias (.ofList ["a/U", "a/T"]) m.desc node := by
    rintro ⟨e, -, -, aliases, -, written, -, c, -, d, -, hc, hd, hne⟩
    exact hne (by rw [honly _ c hc, honly _ d hd])
  have hagreed : r.Agreed .declaringTargets (.ofList ["a/U", "a/T"]) "run" "()V" "go" := by
    refine ⟨⟨"a/T", by decide, ?_⟩, ?_⟩
    · exact ⟨"a/T", ClassInfo.empty.declaring "run" "()V", .refl, by decide +kernel, by decide⟩
    · intro c _ hc
      rw [honly _ c hc]
      decide +kernel
  have hgaps : r.classifyGaps (m.ref "x/M") m.annotations = [] := by decide +kernel
  have hnames := (hmethod.effect haliases).agreed "go" hagreed
  rw [hgaps] at hnames
  refine hnames.renamed (by decide) ?_
  rintro ⟨-, interface, hinterface, -, hprovides⟩
  cases List.mem_singleton.1 hinterface
  exact absurd (honly _ "a/I" hprovides) (by decide)

end MixinNaming
