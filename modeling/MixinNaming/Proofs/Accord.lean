import MixinNaming.Proofs.Desc.Renaming
import MixinNaming.Proofs.Hierarchy.Reachability
import MixinNaming.Proofs.Locality.Renames
import MixinNaming.Proofs.Qualified.Composition
/-! One member of one target, in all the ways in which a mixin may refer to it: by a selector, by a
@Desc, by an alias, by a member that shadows it or overwrites it. The ways build the key and write
the result each in a manner of its own, and all of them lead to the same member. -/
namespace MixinNaming

open Selector (LegalDesc LegalOwner ofMember)

structure Remapper.Offers (r : Remapper) (m : MemberRef) : Prop where
  images : ∀ c renamed, r.naming.class? c = some renamed → LegalClassName renamed
  wellFormed : (ofMember m).WellFormed
  declared : ∃ info, r.hierarchy.get? m.owner = some info ∧ ⟨m.name, m.desc⟩ ∈ info.members

def Edit.States (e : Edit Annotation) (mode : DescMode) (name : String) (owner : Option String)
    (desc : String) : Prop :=
  e.fault = none ∧ ∃ result, DescReference.States mode e.value ⟨name, owner, result, desc⟩

def Edit.Replaces (e : Edit AnnotationValue) (written : List String) (old new : String) : Prop :=
  e.fault = none ∧ ∃ renamed, e.value.strings? = some renamed ∧
    List.Forall₂ (fun a b => a = old → b = new) written renamed

def renamesTo (m : MemberRef) (newName : String) : List Rename :=
  if newName = m.name then [] else [⟨m, newName⟩]

structure Attempt.Decides (x : Attempt Unit) (m : MemberRef) (newName : String) : Prop where
  result : x.result = .ok ()
  renames : Event.renames x.events = renamesTo m newName

structure Edit.Decides {α : Type} (e : Edit α) (a : α) (m : MemberRef) (newName : String) :
    Prop where
  fault : e.fault = none
  value : e.value = a
  renames : Event.renames e.events = renamesTo m newName

theorem Edit.Decides.map {α β : Type} {e : Edit α} {a : α} {m : MemberRef} {newName : String}
    (h : e.Decides a m newName) (f : α → β) : (e.map f).Decides (f a) m newName :=
  ⟨h.fault, congrArg f h.value, h.renames⟩

structure DescReference.Describes (node : Annotation) (name : String) (owner : Option String)
    (desc : String) : Prop where
  known : ∀ element ∈ node.names, isKnownElement element = true
  stated : ∃ result, (DescMode.ofDescriptor desc = .field → result ≠ none) ∧
    States (.ofDescriptor desc) node ⟨name, owner, result, desc⟩

def Remapper.GovernedBy (r : Remapper) (mixin : String) (m : Member) (kind : AnnotationKind) :
    Prop :=
  ∃ index desc, (r.classify (m.ref mixin) m.annotations).result = .ok (some ⟨index, kind⟩) ∧
    m.annotations[index]? = some ⟨desc, []⟩

/-- Whatever refers to `source` in a mixin of the one class that declares it refers to `target`
after the run. -/
structure Remapper.RefersAlike (r : Remapper) (source target : MemberRef) : Prop where
  qualified : ∀ location text, Selector.parse text = .ok (ofMember source) →
    r.resolveSelector location text (some (.single source.owner)) .any =
      .answer (ofMember target).render
  partly : ∀ location text, Selector.parse text = .ok ⟨none, some source.name, some source.desc⟩ →
    (r.resolveSelector location text (some (.single source.owner)) .any).result =
      .ok (ofMember target).render
  described : ∀ location node, DescReference.Describes node source.name none source.desc →
    (r.remapDesc location (.single source.owner) (.ofDescriptor source.desc) node).States
      (.ofDescriptor source.desc) target.name none target.desc
  owned : ∀ location targets node,
    DescReference.Describes node source.name (some source.owner) source.desc →
      (r.remapDesc location targets (.ofDescriptor source.desc) node).States
        (.ofDescriptor source.desc) target.name (some target.owner) target.desc
  shadowAlias : ∀ (site : Site) (v : AnnotationValue) (written : List String),
    site.member.desc = source.desc → v.strings? = some written →
      (r.remapShadowElement site (.single source.owner) "aliases" v).Replaces written source.name
        target.name
  overwriteAlias : ∀ (site : Site) (v : AnnotationValue) (written : List String),
    site.member.desc = source.desc → v.strings? = some written →
      (r.remapOverwriteElement site (.single source.owner) "aliases" v).Replaces written source.name
        target.name
  shadowMethod : ∀ mixin (m : Member), m.name = source.name → m.desc = source.desc →
    r.GovernedBy mixin m .shadow →
      (r.remapMethod mixin [] (.single source.owner) m).Decides m (m.ref mixin) target.name
  shadowField : ∀ mixin (m : Member), m.name = source.name → m.desc = source.desc →
    r.GovernedBy mixin m .shadow →
      (r.remapField mixin (.single source.owner) m).Decides m (m.ref mixin) target.name
  overwrite : ∀ mixin (m : Member), m.name = source.name → m.desc = source.desc →
    r.GovernedBy mixin m .overwrite →
      (r.remapMethod mixin [] (.single source.owner) m).Decides m (m.ref mixin) target.name
  implicitOverwrite : ∀ mixin (m : Member), m.name = source.name → m.desc = source.desc →
    (r.classify (m.ref mixin) m.annotations).result = .ok none →
      (r.remapMethod mixin [] (.single source.owner) m).Decides m (m.ref mixin) target.name

namespace Remapper

variable {r : Remapper} {m : MemberRef} {desc : String}

namespace Offers

variable (h : r.Offers m)
include h

theorem legalDesc : LegalDesc m.desc := h.wellFormed.desc _ rfl

theorem owner_ne : m.owner ≠ "" := by
  have howner : LegalOwner m.owner := h.wellFormed.owner _ rfl
  exact fun heq => howner.1 (String.toList_eq_nil_iff.2 heq)

theorem className_owner_ne : r.naming.className m.owner ≠ "" := by
  rw [Naming.className]
  cases hrenamed : r.naming.class? m.owner with
  | none => exact h.owner_ne
  | some renamed =>
    exact fun heq => (h.images m.owner renamed hrenamed).1 (String.toList_eq_nil_iff.2 heq)

theorem legalImages :
    ∀ c ∈ Descriptor.visitedNames m.desc, LegalClassName (r.naming.className c) := by
  intro c hc
  rw [Naming.className]
  cases hrenamed : r.naming.class? c with
  | some renamed => exact h.images c renamed hrenamed
  | none =>
    obtain ⟨t, ht, hrender⟩ := Descriptor.validate_eq_ok_iff.1 h.legalDesc.1
    rw [← hrender, Descriptor.visitedNames_render ht] at hc
    exact Descriptor.legal_iff.1 ht c hc

theorem declares : r.hierarchy.declares m.owner m.name m.desc = true := by
  obtain ⟨info, hinfo, hmem⟩ := h.declared
  refine Hierarchy.declares_eq_true_iff.2 ⟨m.owner, info, .refl, hinfo, ?_⟩
  simpa [ClassInfo.declares] using hmem

/-- The member is all that its name and its descriptor stand for. -/
theorem mem_infer {m' : MemberRef} :
    m' ∈ r.hierarchy.infer m.owner (some m.name) (some m.desc) ↔ m' = m := by
  obtain ⟨info, hinfo, hmem⟩ := h.declared
  have hlisted : (r.hierarchy.listMembers m.owner).getD [] = info.refs m.owner := by
    rw [Hierarchy.listMembers, hinfo]
    rfl
  rw [Hierarchy.infer, List.mem_filter, hlisted, ClassInfo.refs, List.mem_map]
  constructor
  · rintro ⟨⟨s, -, rfl⟩, hagrees⟩
    simp only [Hierarchy.agrees, Option.all_some, Bool.and_eq_true, beq_iff_eq] at hagrees
    rw [← hagrees.1, ← hagrees.2]
  · rintro rfl
    exact ⟨⟨⟨m'.name, m'.desc⟩, hmem, rfl⟩, by simp [Hierarchy.agrees]⟩

end Offers

section Selectors

variable (h : r.Offers m) (hdesc : r.naming.signature m.desc = .ok desc)
include h hdesc

theorem resolveSelector_partly (location : String) {text : String}
    (hs : Selector.parse text = .ok ⟨none, some m.name, some m.desc⟩) :
    (r.resolveSelector location text (some (.single m.owner)) .any).result =
      .ok (ofMember (r.naming.target m desc)).render := by
  have hcanonical : (r.canonical location m).result = .ok (ofMember (r.naming.target m desc)) :=
    canonical_result.2 (Naming.canonical_eq_ok.2 ⟨desc, hdesc, rfl⟩)
  have hinfer : ∀ m', m' ∈ [m.owner].flatMap (fun c =>
      (r.hierarchy.infer c (some m.name) (some m.desc)).filter fun m' =>
        DescriptorFilter.any.accepts m'.desc) ↔ m' = m := by
    intro m'
    rw [List.flatMap_singleton, List.mem_filter, h.mem_infer]
    exact and_iff_left rfl
  rw [resolveSelector, hs]
  refine Attempt.bind_eq_ok.2 ⟨_, inferCandidates_result _ _ _ _, ?_⟩
  refine Attempt.bind_eq_ok.2 ⟨some (ofMember (r.naming.target m desc)), ?_, rfl⟩
  have hvote : ((r.canonical location m).bind fun s => .answer (some s)).result =
      .ok (some (ofMember (r.naming.target m desc))) :=
    Attempt.bind_eq_ok.2 ⟨_, hcanonical, rfl⟩
  refine agree_eq_ok.2 ⟨fun m' hm' => .inr ?_, .inr ⟨m, (hinfer m).2 rfl, hvote⟩⟩
  rw [(hinfer m').1 hm']
  exact hvote

theorem remapDesc_of_describes (location : String) {t : TargetSet} {node : Annotation}
    {owner : Option String} (howner : ∀ o, owner = some o → o = m.owner)
    (ht : owner = none → t = .single m.owner)
    (hnode : DescReference.Describes node m.name owner m.desc) :
    (r.remapDesc location t (.ofDescriptor m.desc) node).States (.ofDescriptor m.desc)
      (r.naming.member m) (owner.map r.naming.className) desc := by
  obtain ⟨result, htyped, hstates⟩ := hnode.stated
  have hunknown : (node.names.filter fun name => !DescReference.isKnownElement name) = [] := by
    refine List.filter_eq_nil_iff.2 fun name hname => ?_
    simp [hnode.known name hname]
  have hread : (DescReference.read r location (.ofDescriptor m.desc) node).result =
      .ok ⟨m.name, owner, result, m.desc⟩ := by
    refine DescReference.read_eq_ok.2 ⟨?_, fun hfield hnone => ?_, hstates⟩
    · rw [hunknown]
      rfl
    · exact absurd hnone (htyped hfield)
  have howners : (⟨m.name, owner, result, m.desc⟩ : DescReference).owners t = [m.owner] := by
    cases owner with
    | none =>
      rw [ht rfl]
      rfl
    | some o =>
      rw [howner o rfl]
      rfl
  have hname : ((⟨m.name, owner, result, m.desc⟩ : DescReference).newName r location
      (.ofDescriptor m.desc) t).result = .ok (r.naming.member m) := by
    rw [DescReference.newName_eq_ok, howners]
    refine ⟨List.cons_ne_nil _ _, fun o ho => ?_⟩
    rw [List.mem_singleton.1 ho]
    exact DescReference.rename_ofDescriptor m
  obtain ⟨hfault, result', hrenamed⟩ := remapDesc_states hread hname rfl htyped hdesc h.legalImages
    fun o ho => by
      rw [howner o ho]
      exact h.className_owner_ne
  exact ⟨hfault, _, hrenamed⟩

end Selectors

section Single

/-- One target agrees with itself. -/
theorem nameAcross_single (site : Site) (label name owner : String) :
    r.nameAcross site label name (.single owner) .everyTarget =
      .answer (some (r.naming.member ⟨owner, name, site.member.desc⟩)) := rfl

theorem nameAcross_single_declaring (site : Site) (label name owner : String) :
    r.nameAcross site label name (.single owner) .declaringTargets =
      ⟨[.query (.declares owner name site.member.desc)],
        .ok (if r.hierarchy.declares owner name site.member.desc then
          some (r.naming.member ⟨owner, name, site.member.desc⟩) else none)⟩ := by
  cases hdeclares : r.hierarchy.declares owner name site.member.desc with
  | false => simp [nameAcross, TargetSet.single, agree, agreeFrom, nameIn, declares, hdeclares,
      Attempt.bind, Attempt.answer]
  | true => simp [nameAcross, TargetSet.single, agree, agreeFrom, nameIn, declares, hdeclares,
      Attempt.bind, Attempt.answer]

theorem remapAliases_single (h : r.Offers m) {site : Site} (hsite : site.member.desc = m.desc)
    (label : String) {v : AnnotationValue} {written : List String}
    (hv : v.strings? = some written) :
    (r.remapAliases site label (.single m.owner) v).Replaces written m.name
      (r.naming.member m) := by
  have hfault : (Edit.each (r.remapAlias site label (.single m.owner)) written).fault = none := by
    refine Edit.each_fault_eq_none.2 fun text _ => ?_
    rw [remapAlias, nameAcross_single_declaring]
    rfl
  have hname : (r.remapAlias site label (.single m.owner) m.name).value = r.naming.member m := by
    rw [remapAlias, nameAcross_single_declaring, hsite, h.declares]
    rfl
  rw [remapAliases, hv]
  refine ⟨hfault, (Edit.each (r.remapAlias site label (.single m.owner)) written).value, ?_, ?_⟩
  · exact AnnotationValue.strings?_withStrings ((Edit.length_each _ _).trans
      (by rw [AnnotationValue.strings?_eq_some.1 hv, List.length_map]))
  · rw [Edit.each_of_completed hfault]
    refine List.forall₂_map_right_iff.2 (List.forall₂_same.2 ?_)
    rintro text - rfl
    exact hname

end Single

section Members

variable {site : Site} {newName : String}

theorem decideRename_decides (hne : newName ≠ site.member.name) :
    (decideRename site newName).Decides site.member newName where
  result := rfl
  renames := by
    rw [renamesTo, if_neg hne]
    rfl

theorem answer_decides (heq : newName = site.member.name) :
    (Attempt.answer ()).Decides site.member newName where
  result := rfl
  renames := by
    rw [renamesTo, if_pos heq]
    rfl

/-- Without interfaces nothing stands against a rename. -/
theorem settleOverwrite_single (hname : site.member.name = m.name)
    (hdesc : site.member.desc = m.desc) (hsite : site.interfaces = []) (label : String) :
    (r.settleOverwrite site (.single m.owner) label).Decides site.member (r.naming.member m) := by
  rw [settleOverwrite, nameAcross_single, Attempt.answer_bind, hsite, hname, hdesc]
  dsimp only
  split
  · next heq => exact answer_decides (heq.trans hname.symm)
  · next hne => exact decideRename_decides (hname ▸ hne)

theorem renameShadow_single (hsite : site.interfaces = []) (t : TargetSet) (newName : String) :
    (r.renameShadow site t newName).Decides site.member newName := by
  have hguard : (if site.member.isMethod then r.guardInterfaces site "@Shadow" t site.interfaces
      else .answer ()) = .answer () := by
    rw [hsite]
    exact ite_self _
  rw [renameShadow, hguard, Attempt.answer_bind]
  split
  · next heq => exact answer_decides heq
  · next hne => exact decideRename_decides hne

theorem stripLead_of_not_opensWith {lead name : String}
    (h : Vocabulary.opensWith lead name = false) : stripLead lead name = none := by
  have hnone : lead.toList.isPrefixOf? name.toList = none := by
    rw [← Option.not_isSome_iff_eq_none, List.isSome_isPrefixOf?_eq_isPrefixOf,
      ← Vocabulary.opensWith, h]
    decide
  rw [stripLead, hnone]

theorem settleShadow_single (h : r.Offers m) (hname : site.member.name = m.name)
    (hdesc : site.member.desc = m.desc) (hsite : site.interfaces = []) {lead : String}
    (hlead : Vocabulary.opensWith lead m.name = false) :
    (r.settleShadow site (.single m.owner) lead).Decides site.member (r.naming.member m) := by
  have hshadow := renameShadow_single (r := r) hsite (.single m.owner) (r.naming.member m)
  rw [settleShadow, hname, stripLead_of_not_opensWith hlead, Option.getD_none,
    nameAcross_single_declaring, hdesc, h.declares]
  exact ⟨hshadow.result, hshadow.renames⟩

theorem check_decides {x : Attempt Unit} {α : Type} (a : α) (h : x.Decides m newName) :
    (Edit.check x a).Decides a m newName := by
  obtain ⟨events, result⟩ := x
  obtain ⟨hresult, hrenames⟩ := h
  cases hresult
  refine ⟨rfl, rfl, ?_⟩
  exact (Event.renames_append events []).trans ((List.append_nil _).trans hrenames)

/-- An answer that decides nothing leaves the rename to what follows it. -/
theorem given_decides {α β : Type} {x : Attempt β} {b : β} {a : α} {f : β → Edit α}
    (hx : x.Silent) (hb : x.result = .ok b) (hf : (f b).Decides a m newName) :
    (Edit.given x a f).Decides a m newName := by
  obtain ⟨events, result⟩ := x
  cases hb
  have hevents : Event.renames events = [] := hx
  refine ⟨hf.fault, hf.value, ?_⟩
  rw [Edit.given, Event.renames_append, hevents]
  exact hf.renames

variable (site) in
/-- The one annotation that governs a member is all that its rules see of the member. -/
theorem remapMain_decides {without : Attempt Unit}
    {f : AnnotationKind → Annotation → Edit Annotation} {annotations : List Annotation}
    {index : Nat} {kind : AnnotationKind} {node : Annotation}
    (hfound : (r.classify site.member annotations).result = .ok (some ⟨index, kind⟩))
    (hnode : annotations[index]? = some node)
    (hf : (f kind node).Decides node site.member newName) :
    (r.remapMain site without f annotations).Decides annotations site.member newName := by
  refine given_decides ((coupled_silent r .empty).classify site.member 0 none annotations) hfound ?_
  obtain ⟨hindex, rfl⟩ := List.getElem?_eq_some_iff.1 hnode
  change (Edit.atIndex index (f kind) annotations).Decides annotations site.member newName
  rw [Edit.atIndex, hnode]
  have hset := hf.map (annotations.set index)
  rwa [List.set_getElem_self hindex] at hset

variable (site) in
/-- Without such an annotation something else decides. -/
theorem remapMain_decides_without {without : Attempt Unit}
    {f : AnnotationKind → Annotation → Edit Annotation} {annotations : List Annotation}
    (hfound : (r.classify site.member annotations).result = .ok none)
    (hwithout : without.Decides site.member newName) :
    (r.remapMain site without f annotations).Decides annotations site.member newName := by
  refine given_decides ((coupled_silent r .empty).classify site.member 0 none annotations) hfound ?_
  exact check_decides annotations hwithout

/-- A bare @Shadow has no part but the lead that it does not state. -/
theorem remapShadow_single (h : r.Offers m) (hname : site.member.name = m.name)
    (hdesc : site.member.desc = m.desc) (hsite : site.interfaces = [])
    (hlead : Vocabulary.opensWith Vocabulary.defaultShadowLead m.name = false) (nodeDesc : String) :
    (r.remapShadow site (.single m.owner) ⟨nodeDesc, []⟩).Decides ⟨nodeDesc, []⟩ site.member
      (r.naming.member m) :=
  check_decides _ (settleShadow_single h hname hdesc hsite hlead)

theorem remapOverwrite_single (hname : site.member.name = m.name)
    (hdesc : site.member.desc = m.desc) (hsite : site.interfaces = []) (nodeDesc : String) :
    (r.remapOverwrite site (.single m.owner) ⟨nodeDesc, []⟩).Decides ⟨nodeDesc, []⟩ site.member
      (r.naming.member m) :=
  check_decides _ (settleOverwrite_single hname hdesc hsite overwriteLabel)

end Members

section Governed

variable {mixin : String} {member : Member} {t : TargetSet} {newName : String}

theorem GovernedBy.remapMethod {kind : AnnotationKind} (hgoverned : r.GovernedBy mixin member kind)
    (hdecides : ∀ nodeDesc,
      (r.remapGoverningMethod ⟨member.ref mixin, []⟩ t kind ⟨nodeDesc, []⟩).Decides
        ⟨nodeDesc, []⟩ (member.ref mixin) newName) :
    (r.remapMethod mixin [] t member).Decides member (member.ref mixin) newName := by
  obtain ⟨index, nodeDesc, hfound, hnode⟩ := hgoverned
  exact (remapMain_decides ⟨member.ref mixin, []⟩ hfound hnode (hdecides nodeDesc)).map
    fun annotations => { member with annotations }

theorem GovernedBy.remapField {kind : AnnotationKind} (hgoverned : r.GovernedBy mixin member kind)
    (hdecides : ∀ nodeDesc,
      (r.remapGoverningField ⟨member.ref mixin, []⟩ t kind ⟨nodeDesc, []⟩).Decides
        ⟨nodeDesc, []⟩ (member.ref mixin) newName) :
    (r.remapField mixin t member).Decides member (member.ref mixin) newName := by
  obtain ⟨index, nodeDesc, hfound, hnode⟩ := hgoverned
  exact (remapMain_decides ⟨member.ref mixin, []⟩ hfound hnode (hdecides nodeDesc)).map
    fun annotations => { member with annotations }

theorem remapMethod_ungoverned
    (hfound : (r.classify (member.ref mixin) member.annotations).result = .ok none)
    (hdecides : (r.settleOverwrite ⟨member.ref mixin, []⟩ t implicitOverwriteLabel).Decides
      (member.ref mixin) newName) :
    (r.remapMethod mixin [] t member).Decides member (member.ref mixin) newName :=
  (remapMain_decides_without ⟨member.ref mixin, []⟩
    (f := r.remapGoverningMethod ⟨member.ref mixin, []⟩ t) hfound hdecides).map
      fun annotations => ({ member with annotations } : Member)

end Governed

end Remapper

/-- All ways to name a member of the one target agree. Written out or without its owner, in a @Desc
or as an alias, shadowed or overwritten, it goes by the name that the naming gives it. -/
theorem every_reference_leads_to_one_member (r : Remapper) (m : MemberRef) (h : r.Offers m)
    (hlead : Vocabulary.opensWith Vocabulary.defaultShadowLead m.name = false) :
    ∃ desc, r.naming.signature m.desc = .ok desc ∧ r.RefersAlike m (r.naming.target m desc) := by
  obtain ⟨desc, hdesc⟩ := r.naming.exists_signature h.legalDesc
  refine ⟨desc, hdesc, ?_⟩
  constructor
  case qualified =>
    intro location text hs
    exact Remapper.resolveSelector_qualified hs (Naming.canonical_eq_ok.2 ⟨desc, hdesc, rfl⟩) _ _ _
  case partly =>
    intro location text hs
    exact Remapper.resolveSelector_partly h hdesc location hs
  case described =>
    intro location node hnode
    exact Remapper.remapDesc_of_describes h hdesc location (by simp) (fun _ => rfl) hnode
  case owned =>
    intro location targets node hnode
    exact Remapper.remapDesc_of_describes h hdesc location (by simp) (by simp) hnode
  case shadowAlias =>
    intro site v written hsite hv
    exact Remapper.remapAliases_single h hsite "@Shadow" hv
  case overwriteAlias =>
    intro site v written hsite hv
    exact Remapper.remapAliases_single h hsite Remapper.overwriteLabel hv
  case shadowMethod =>
    intro mixin member hname hmember hgoverned
    exact hgoverned.remapMethod fun nodeDesc =>
      Remapper.remapShadow_single h hname hmember rfl hlead nodeDesc
  case shadowField =>
    intro mixin member hname hmember hgoverned
    exact hgoverned.remapField fun nodeDesc =>
      Remapper.remapShadow_single h hname hmember rfl hlead nodeDesc
  case overwrite =>
    intro mixin member hname hmember hgoverned
    exact hgoverned.remapMethod fun nodeDesc =>
      Remapper.remapOverwrite_single hname hmember rfl nodeDesc
  case implicitOverwrite =>
    intro mixin member hname hmember hfound
    exact Remapper.remapMethod_ungoverned hfound
      (Remapper.settleOverwrite_single hname hmember rfl Remapper.implicitOverwriteLabel)

/-- A renamed method of a renamed class: by part of a selector, in a @Desc, and shadowed. -/
theorem references_to_renamed_method :
    let table := (MappingTable.empty.withClass "a/T" "b/U").withMember
      ⟨⟨"a/T", "run", "(I)La/T;"⟩, "go"⟩
    let hierarchy := Hierarchy.empty.withClass "a/T" (ClassInfo.empty.declaring "run" "(I)La/T;")
    let r : Remapper := ⟨table.naming, hierarchy, .failFast⟩
    let node : Annotation := ⟨Vocabulary.descType, [("value", .string "run"),
      ("args", .array [.type ⟨"I"⟩]), ("ret", .type ⟨"La/T;"⟩)]⟩
    let shadowed : Member := ⟨"run", "(I)La/T;", [⟨Vocabulary.shadow, []⟩]⟩
    (r.resolveSelector "" "run (I)La/T;" (some (.single "a/T")) .any).result =
        .ok "Lb/U;go(I)Lb/U;" ∧
      (r.remapDesc "" (.single "a/T") .method node).States .method "go" none "(I)Lb/U;" ∧
      (r.remapMethod "x/M" [] (.single "a/T") shadowed).Decides shadowed
        ⟨"x/M", "run", "(I)La/T;"⟩ "go" := by
  intro table hierarchy r node shadowed
  let m : MemberRef := ⟨"a/T", "run", "(I)La/T;"⟩
  have hclass : (⟨some "b/U", none, none⟩ : Selector).WellFormed :=
    (Selector.parse_eq_ok_iff.1 (by decide +kernel : Selector.parse "Lb/U;" = .ok _)).2
  have hmember : (ofMember m).WellFormed :=
    (Selector.parse_eq_ok_iff.1 (by decide +kernel : Selector.parse "La/T;run(I)La/T;" = .ok _)).2
  have hoffers : r.Offers m := by
    refine ⟨fun c renamed hc => ?_, hmember, ClassInfo.empty.declaring "run" "(I)La/T;",
      by decide +kernel, by decide⟩
    have hlookup := Table.get?_insert (.empty : Table String String) "a/T" c "b/U"
    rw [Table.get?_empty] at hlookup
    obtain ⟨-, heq⟩ := Option.ite_none_right_eq_some.1 (hlookup.symm.trans hc)
    rw [← Option.some.inj heq]
    exact Naming.legalClassName_of_legalOwner (hclass.owner _ rfl)
  obtain ⟨desc, hdesc, halike⟩ :=
    every_reference_leads_to_one_member r m hoffers (by decide +kernel)
  have hsignature : r.naming.signature m.desc = .ok "(I)Lb/U;" := by decide +kernel
  cases hsignature.symm.trans hdesc
  have htarget : r.naming.target m "(I)Lb/U;" = ⟨"b/U", "go", "(I)Lb/U;"⟩ := by decide +kernel
  rw [htarget] at halike
  have hmode : DescMode.ofDescriptor m.desc = .method := by decide +kernel
  have hdescribes : DescReference.Describes node "run" none "(I)La/T;" := by
    refine ⟨by decide, some "La/T;", fun _ => by decide, rfl, rfl, rfl, by decide, rfl, ?_⟩
    rw [hmode]
    exact ⟨["I"], rfl, by decide⟩
  have hdescribed := halike.described "" node hdescribes
  rw [hmode] at hdescribed
  refine ⟨?_, hdescribed, ?_⟩
  · have hrender : (ofMember ⟨"b/U", "go", "(I)Lb/U;"⟩).render = "Lb/U;go(I)Lb/U;" := by
      decide +kernel
    rw [← hrender]
    exact halike.partly "" _ (by decide +kernel)
  · exact halike.shadowMethod "x/M" shadowed rfl rfl ⟨0, _, by decide +kernel, rfl⟩

end MixinNaming
