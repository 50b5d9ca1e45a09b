import MixinNaming.Proofs.Effect.Names
import MixinNaming.Proofs.Frame.ToleratedGaps
import MixinNaming.Proofs.Qualified.Composition
/-! What becomes of a selector. A text that is none is refused, and a member named in full becomes
its own name in the target namespace. Anything else stands for a set of candidates: if there are
none there is a gap, if they all become one member the selector becomes that member, and otherwise
the mixin is illegal. -/
namespace MixinNaming

open Selector (ofMember)

/-- The member, whose descriptor is valid, is `target` in the target namespace. -/
structure Naming.Becomes (n : Naming) (m target : MemberRef) : Prop where
  owner : target.owner = n.className m.owner
  name : target.name = n.member m
  desc : n.signature m.desc = .ok target.desc

namespace Remapper

variable (r : Remapper)

/-- A member that a partial selector may stand for: a class of the scope declares it itself, it
agrees with the parts that are written, and the filter accepts it. -/
structure Candidate (s : Selector) (t : TargetSet) (filter : DescriptorFilter) (m : MemberRef) :
    Prop where
  within : match s.owner with
    | some owner => m.owner = owner
    | none => m.owner ∈ t.classes
  declared : ∃ info, r.hierarchy.get? m.owner = some info ∧ ⟨m.name, m.desc⟩ ∈ info.members
  name : ∀ name ∈ s.name, m.name = name
  desc : ∀ desc ∈ s.desc, m.desc = desc
  accepted : filter.accepts m.desc = true

/-- A gap at the location, after which the text comes back if the policy goes on. -/
structure Leaves (location text : String) (scope : List String) (x : Attempt String) : Prop where
  effect : x.effect =
    .reporting r.policy [] ⟨location, .unresolvedSelector text (r.knownMembers scope)⟩
  result : x.effect.fault = none → x.result = .ok text

structure Resolves (location text : String) (filter : DescriptorFilter) : Prop where
  unparsable : ∀ v targets, Selector.parse text = .error v →
    r.resolveSelector location text targets filter = .stop (.illegal location v)
  qualified : ∀ s m, Selector.parse text = .ok s → s.qualified? = some m →
    ∃ target, r.naming.Becomes m target ∧ ∀ targets,
      r.resolveSelector location text targets filter = .answer (ofMember target).render
  unscoped : ∀ s, Selector.parse text = .ok s → s.qualified? = none →
    r.Leaves location text [] (r.resolveSelector location text none filter)
  agreed : ∀ s t target, Selector.parse text = .ok s → s.qualified? = none →
    (∃ m, r.Candidate s t filter m) →
    (∀ m, r.Candidate s t filter m → r.naming.Becomes m target) →
    (r.resolveSelector location text (some t) filter).result = .ok (ofMember target).render ∧
      (r.resolveSelector location text (some t) filter).effect = .passing []
  torn : ∀ s t, Selector.parse text = .ok s → s.qualified? = none →
    (∃ m, r.Candidate s t filter m) →
    (¬∃ target, ∀ m, r.Candidate s t filter m → r.naming.Becomes m target) →
    (r.resolveSelector location text (some t) filter).effect.Refused []
  unmatched : ∀ s t, Selector.parse text = .ok s → s.qualified? = none →
    (∀ m, ¬r.Candidate s t filter m) →
    r.Leaves location text (scopeOf s t) (r.resolveSelector location text (some t) filter)
  owned : ∀ s owner t u, Selector.parse text = .ok s → s.owner = some owner →
    r.resolveSelector location text (some t) filter =
      r.resolveSelector location text (some u) filter

end Remapper

theorem Naming.becomes_iff {n : Naming} {m target : MemberRef} :
    n.Becomes m target ↔ n.canonical m = .ok (ofMember target) := by
  rw [Naming.canonical_eq_ok]
  constructor
  · rintro ⟨howner, hname, hdesc⟩
    refine ⟨target.desc, hdesc, ?_⟩
    rw [Naming.target, ← howner, ← hname]
  · rintro ⟨desc, hdesc, htarget⟩
    have hsame : n.target m desc = target :=
      Option.some.inj (congrArg Selector.qualified? htarget)
    subst hsame
    exact ⟨rfl, rfl, hdesc⟩

theorem Hierarchy.agrees_iff {part : Option String} {x : String} :
    agrees part x = true ↔ ∀ written ∈ part, x = written := by
  cases part with
  | none => simp [agrees]
  | some written => simpa [agrees] using eq_comm

theorem Hierarchy.mem_infer_iff {h : Hierarchy} {c : String} {name desc : Option String}
    {m : MemberRef} : m ∈ h.infer c name desc ↔
      (m.owner = c ∧ ∃ info, h.get? m.owner = some info ∧ ⟨m.name, m.desc⟩ ∈ info.members) ∧
        (∀ written ∈ name, m.name = written) ∧ ∀ written ∈ desc, m.desc = written := by
  rw [infer, List.mem_filter, Bool.and_eq_true, agrees_iff, agrees_iff]
  refine and_congr_left fun _ => ?_
  rw [listMembers]
  constructor
  · intro hm
    cases hc : h.get? c with
    | none =>
      rw [hc] at hm
      cases hm
    | some info =>
      rw [hc] at hm
      obtain ⟨declared, hdeclared, rfl⟩ := List.mem_map.1 hm
      exact ⟨rfl, info, hc, hdeclared⟩
  · rintro ⟨rfl, info, hc, hdeclared⟩
    rw [hc]
    exact List.mem_map.2 ⟨_, hdeclared, rfl⟩

namespace Remapper

variable {r : Remapper} {location text : String} {s : Selector} {t : TargetSet}
  {filter : DescriptorFilter}

def inferred (r : Remapper) (s : Selector) (t : TargetSet) (filter : DescriptorFilter) :
    List MemberRef :=
  (scopeOf s t).flatMap fun c =>
    (r.hierarchy.infer c s.name s.desc).filter fun m => filter.accepts m.desc

theorem mem_inferred_iff {m : MemberRef} :
    m ∈ r.inferred s t filter ↔ r.Candidate s t filter m := by
  have hwithin : m.owner ∈ scopeOf s t ↔ match s.owner with
      | some owner => m.owner = owner
      | none => m.owner ∈ t.classes := by
    rw [scopeOf]
    cases s.owner with
    | none => exact .rfl
    | some owner => exact List.mem_singleton
  simp only [inferred, List.mem_flatMap, List.mem_filter, Hierarchy.mem_infer_iff]
  constructor
  · rintro ⟨c, hc, ⟨⟨rfl, hdeclared⟩, hname, hdesc⟩, haccepted⟩
    exact ⟨hwithin.1 hc, hdeclared, hname, hdesc, haccepted⟩
  · intro h
    exact ⟨m.owner, hwithin.2 h.within, ⟨⟨rfl, h.declared⟩, h.name, h.desc⟩, h.accepted⟩

section Vote

variable (r) (location text)

theorem canonical_plain (m : MemberRef) : (r.canonical location m).Plain :=
  ⟨rfl, rfl, canonical_structural r location m⟩

theorem agreeOnCandidates_plain (candidates : List MemberRef) :
    (r.agreeOnCandidates location text candidates).Plain := by
  have hvote (m : MemberRef) : Congruence.plain.attempts
      ((r.canonical location m).bind fun s => .answer (some s))
      ((r.canonical location m).bind fun s => .answer (some s)) :=
    (canonical_plain r location m).bind fun s => .answer (some s)
  change Congruence.plain.attempts (r.agreeOnCandidates location text candidates)
    (r.agreeOnCandidates location text candidates)
  exact Congruence.plain.agree hvote location _ candidates

theorem inferCandidates_plain (s : Selector) (filter : DescriptorFilter) (scope : List String) :
    (r.inferCandidates s filter scope).Plain := by
  induction scope with
  | nil => exact .answer []
  | cons c rest ih => exact .bind (.ask _ _) fun found => .bind ih fun more => .answer _

end Vote

theorem vote_eq_ok {m : MemberRef} {found : Option Selector} :
    ((r.canonical location m).bind fun s => .answer (some s)).result = .ok found ↔
      ∃ target, r.naming.Becomes m target ∧ some (ofMember target) = found := by
  simp only [Attempt.bind_eq_ok, canonical_result, Naming.becomes_iff]
  constructor
  · rintro ⟨s, hs, ⟨⟩⟩
    obtain ⟨desc, -, rfl⟩ := Naming.canonical_eq_ok.1 hs
    exact ⟨_, hs, rfl⟩
  · rintro ⟨target, htarget, rfl⟩
    exact ⟨_, htarget, rfl⟩

theorem agreeOnCandidates_of_agreed {candidates : List MemberRef} {target : MemberRef}
    (hsome : ∃ m, m ∈ candidates) (h : ∀ m ∈ candidates, r.naming.Becomes m target) :
    (r.agreeOnCandidates location text candidates).result = .ok (some (ofMember target)) := by
  obtain ⟨m, hm⟩ := hsome
  refine agree_eq_ok.2 ⟨fun m hm => .inr ?_, .inr ⟨m, hm, ?_⟩⟩
  · exact vote_eq_ok.2 ⟨target, h m hm, rfl⟩
  · exact vote_eq_ok.2 ⟨target, h m hm, rfl⟩

theorem agreeOnCandidates_of_torn {candidates : List MemberRef} (hsome : ∃ m, m ∈ candidates)
    (h : ¬∃ target, ∀ m ∈ candidates, r.naming.Becomes m target) (found : Option Selector) :
    (r.agreeOnCandidates location text candidates).result ≠ .ok found := by
  intro hfound
  have hvotes : ∀ m ∈ candidates, ∃ target, r.naming.Becomes m target ∧
      some (ofMember target) = found := by
    intro m hm
    rcases (agree_eq_ok.1 hfound).1 m hm with hvote | hvote
    · obtain ⟨target, -, hnone⟩ := vote_eq_ok.1 hvote
      cases hnone
    · exact vote_eq_ok.1 hvote
  obtain ⟨m, hm⟩ := hsome
  obtain ⟨target, -, rfl⟩ := hvotes m hm
  refine h ⟨target, fun m' hm' => ?_⟩
  obtain ⟨target', htarget', heq⟩ := hvotes m' hm'
  have hsame : target' = target :=
    Option.some.inj (congrArg Selector.qualified? (Option.some.inj heq))
  exact hsame ▸ htarget'

theorem leaveUnresolved_leaves (r : Remapper) (location text : String) (scope : List String) :
    r.Leaves location text scope (r.leaveUnresolved location text scope) where
  effect := by
    rw [leaveUnresolved, Attempt.effect_bind_answer, effect_report]
  result hfault := by
    obtain ⟨out, hout⟩ := Attempt.effect_fault_eq_none.1 hfault
    rw [hout, (leaveUnresolved_eq_ok.1 hout).2]

section Partial

variable (hs : Selector.parse text = .ok s) (hpartial : s.qualified? = none)
include hs hpartial

theorem resolveSelector_unscoped (location : String) (filter : DescriptorFilter) :
    r.resolveSelector location text none filter = r.leaveUnresolved location text [] := by
  rw [resolveSelector, hs]
  dsimp only
  rw [hpartial]

theorem resolveSelector_partial (location : String) (t : TargetSet) (filter : DescriptorFilter) :
    r.resolveSelector location text (some t) filter =
      (r.inferCandidates s filter (scopeOf s t)).bind fun candidates =>
        (r.agreeOnCandidates location text candidates).bind fun
          | some resolved => .answer resolved.render
          | none => r.leaveUnresolved location text (scopeOf s t) := by
  rw [resolveSelector, hs]
  dsimp only
  rw [hpartial]
  rfl

/-- Once the candidates are collected, what is left is to ask whether they agree. -/
theorem effect_resolveSelector_partial (location : String) (t : TargetSet)
    (filter : DescriptorFilter) :
    (r.resolveSelector location text (some t) filter).effect =
      ((r.agreeOnCandidates location text (r.inferred s t filter)).bind fun
        | some resolved => .answer resolved.render
        | none => r.leaveUnresolved location text (scopeOf s t) : Attempt String).effect := by
  rw [resolveSelector_partial hs hpartial]
  exact (inferCandidates_plain r s filter _).effect_bind (inferCandidates_result r s filter _) _

theorem resolveSelector_of_agreed {target : MemberRef} (hsome : ∃ m, r.Candidate s t filter m)
    (h : ∀ m, r.Candidate s t filter m → r.naming.Becomes m target) :
    (r.resolveSelector location text (some t) filter).result = .ok (ofMember target).render ∧
      (r.resolveSelector location text (some t) filter).effect = .passing [] := by
  simp only [← mem_inferred_iff] at hsome h
  have hagreed : (r.agreeOnCandidates location text (r.inferred s t filter)).result =
      .ok (some (ofMember target)) := agreeOnCandidates_of_agreed hsome h
  have hplain := agreeOnCandidates_plain r location text (r.inferred s t filter)
  constructor
  · rw [resolveSelector_partial hs hpartial]
    refine Attempt.bind_eq_ok.2 ⟨_, inferCandidates_result r s filter _, ?_⟩
    exact Attempt.bind_eq_ok.2 ⟨_, hagreed, rfl⟩
  · rw [effect_resolveSelector_partial hs hpartial, hplain.effect_bind hagreed]
    rfl

theorem resolveSelector_of_torn (hsome : ∃ m, r.Candidate s t filter m)
    (h : ¬∃ target, ∀ m, r.Candidate s t filter m → r.naming.Becomes m target) :
    (r.resolveSelector location text (some t) filter).effect.Refused [] := by
  simp only [← mem_inferred_iff] at hsome h
  rw [effect_resolveSelector_partial hs hpartial]
  refine (agreeOnCandidates_plain r location text _).refused_bind (fun found => ?_) _
  exact agreeOnCandidates_of_torn hsome h found

theorem resolveSelector_of_unmatched (h : ∀ m, ¬r.Candidate s t filter m) :
    r.Leaves location text (scopeOf s t) (r.resolveSelector location text (some t) filter) := by
  simp only [← mem_inferred_iff] at h
  have hnone : r.inferred s t filter = [] := List.eq_nil_iff_forall_not_mem.2 h
  have hleaves := leaveUnresolved_leaves r location text (scopeOf s t)
  have heffect : (r.resolveSelector location text (some t) filter).effect =
      (r.leaveUnresolved location text (scopeOf s t)).effect := by
    rw [effect_resolveSelector_partial hs hpartial, hnone]
    rfl
  refine ⟨heffect.trans hleaves.effect, fun hfault => ?_⟩
  rw [heffect] at hfault
  rw [resolveSelector_partial hs hpartial]
  refine Attempt.bind_eq_ok.2 ⟨_, inferCandidates_result r s filter _, ?_⟩
  have hinferred := hleaves.result hfault
  rw [← inferred, hnone]
  exact hinferred

end Partial

end Remapper

/-- What becomes of a selector is determined by the members that it may stand for. -/
theorem selector_resolution (r : Remapper) (location text : String) (filter : DescriptorFilter) :
    r.Resolves location text filter where
  unparsable v targets hv := by
    rw [Remapper.resolveSelector, hv]
  qualified s m hs hm := by
    obtain rfl := Selector.eq_ofMember_of_qualified hm
    have hwell := (Selector.parse_eq_ok_iff.1 hs).2
    obtain ⟨desc, hdesc⟩ := r.naming.exists_signature (hwell.desc _ rfl)
    refine ⟨r.naming.target m desc, ⟨rfl, rfl, hdesc⟩, fun targets => ?_⟩
    have hcanonical := Naming.canonical_eq_ok.2 ⟨desc, hdesc, rfl⟩
    exact Remapper.resolveSelector_qualified hs hcanonical location targets filter
  unscoped s hs hpartial := by
    rw [Remapper.resolveSelector_unscoped hs hpartial]
    exact Remapper.leaveUnresolved_leaves r location text []
  agreed s t target hs hpartial := Remapper.resolveSelector_of_agreed hs hpartial
  torn s t hs hpartial := Remapper.resolveSelector_of_torn hs hpartial
  unmatched s t hs hpartial := Remapper.resolveSelector_of_unmatched hs hpartial
  owned s owner t u hs howner := by
    cases hqualified : s.qualified? with
    | some m =>
      rw [Remapper.resolveSelector, Remapper.resolveSelector, hs]
      dsimp only
      rw [hqualified]
    | none =>
      have hscope : Remapper.scopeOf s t = Remapper.scopeOf s u := by
        rw [Remapper.scopeOf, Remapper.scopeOf, howner]
      rw [Remapper.resolveSelector_partial hs hqualified,
        Remapper.resolveSelector_partial hs hqualified, hscope]

/-- The name of an overloaded method stands for several members even where no gap stops a run. -/
theorem overloaded_name_is_torn :
    let table := MappingTable.empty.withMember ⟨⟨"a/T", "run", "()V"⟩, "go"⟩
    let hierarchy := Hierarchy.empty.withClass "a/T"
      ((ClassInfo.empty.declaring "run" "()V").declaring "run" "(I)V")
    let r : Remapper := ⟨table.naming, hierarchy, .lenient⟩
    (r.resolveSelector "" "run()V" (some (.single "a/T")) .any).result = .ok "La/T;go()V" ∧
      (r.resolveSelector "" "run" (some (.single "a/T")) .any).effect.Refused [] := by
  intro table hierarchy r
  have hinfo : r.hierarchy.get? "a/T" =
      some ((ClassInfo.empty.declaring "run" "()V").declaring "run" "(I)V") := by
    decide +kernel
  have hcandidate : ∀ s desc, s.owner = none → (∀ name ∈ s.name, "run" = name) →
      (∀ written ∈ s.desc, desc = written) → desc = "()V" ∨ desc = "(I)V" →
      r.Candidate s (.single "a/T") .any ⟨"a/T", "run", desc⟩ := by
    intro s desc howner hname hdesc hmem
    refine ⟨?_, ⟨_, hinfo, ?_⟩, hname, hdesc, rfl⟩
    · rw [howner]
      exact List.mem_singleton_self _
    · rcases hmem with rfl | rfl <;> decide
  constructor
  · have hrender : (ofMember ⟨"a/T", "go", "()V"⟩).render = "La/T;go()V" := by decide +kernel
    rw [← hrender]
    refine ((selector_resolution r "" "run()V" .any).agreed ⟨none, some "run", some "()V"⟩ _ _
      (by decide +kernel) rfl ⟨_, hcandidate _ "()V" rfl ?_ ?_ (.inl rfl)⟩ fun m hm => ?_).1
    · simp
    · simp
    · obtain ⟨owner, name, desc⟩ := m
      obtain rfl : owner = "a/T" := List.mem_singleton.1 hm.within
      obtain rfl : name = "run" := hm.name "run" rfl
      obtain rfl : desc = "()V" := hm.desc "()V" rfl
      exact Naming.becomes_iff.2 (by decide +kernel)
  · refine (selector_resolution r "" "run" .any).torn ⟨none, some "run", none⟩ _
      (by decide +kernel) rfl ⟨_, hcandidate _ "()V" rfl ?_ ?_ (.inl rfl)⟩ ?_
    · simp
    · simp
    · rintro ⟨target, hall⟩
      have hvoid := (hall _ (hcandidate _ "()V" rfl (by simp) (by simp) (.inl rfl))).name
      have hint := (hall _ (hcandidate _ "(I)V" rfl (by simp) (by simp) (.inr rfl))).name
      exact absurd (hvoid.symm.trans hint) (by decide +kernel)

end MixinNaming
