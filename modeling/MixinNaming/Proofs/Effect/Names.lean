import MixinNaming.Proofs.Effect.Basic
import MixinNaming.Proofs.Hierarchy.Reachability
/-! What the rules for members ask of all targets and of all interfaces. The targets that have a say
in a name are none, or agree on it, or are torn. Once a name is found the member is renamed, unless
an interface that keeps the names of its members provides it. -/
namespace MixinNaming.Remapper

variable (r : Remapper)

def HasSay (electorate : Electorate) (name desc target : String) : Prop :=
  match electorate with
  | .everyTarget => True
  | .declaringTargets => r.hierarchy.Provides name desc target

structure Agreed (electorate : Electorate) (t : TargetSet) (name desc newName : String) : Prop where
  voiced : ∃ c ∈ t.classes, r.HasSay electorate name desc c
  unanimous : ∀ c ∈ t.classes, r.HasSay electorate name desc c →
    r.naming.member ⟨c, name, desc⟩ = newName

def Torn (electorate : Electorate) (t : TargetSet) (name desc : String) : Prop :=
  ∃ c ∈ t.classes, ∃ d ∈ t.classes,
    r.HasSay electorate name desc c ∧ r.HasSay electorate name desc d ∧
      r.naming.member ⟨c, name, desc⟩ ≠ r.naming.member ⟨d, name, desc⟩

/-- An interface of the mixin provides the member, itself or from above, and keeps its name. -/
def Shields (site : Site) (t : TargetSet) : Prop :=
  ∃ interface ∈ site.interfaces, r.policy.protects interface t = true ∧
    r.hierarchy.Provides site.member.name site.member.desc interface

variable {r} {electorate : Electorate} {t : TargetSet} {name desc newName : String} {site : Site}

theorem agreed_or_torn (h : ∃ c ∈ t.classes, r.HasSay electorate name desc c) :
    (∃ newName, r.Agreed electorate t name desc newName) ∨ r.Torn electorate t name desc := by
  obtain ⟨c, hc, hsay⟩ := h
  by_cases hall : ∀ d ∈ t.classes, r.HasSay electorate name desc d →
      r.naming.member ⟨d, name, desc⟩ = r.naming.member ⟨c, name, desc⟩
  · exact .inl ⟨_, ⟨c, hc, hsay⟩, hall⟩
  · simp only [Classical.not_forall] at hall
    obtain ⟨d, hd, hsay', hne⟩ := hall
    exact .inr ⟨d, hd, c, hc, hsay', hsay, hne⟩

theorem nameIn_plain (electorate : Electorate) (name desc target : String) :
    (r.nameIn electorate name desc target).Plain := by
  cases electorate with
  | everyTarget => exact .answer _
  | declaringTargets => exact .bind (.ask _ _) fun declared => .answer _

theorem nameIn_of_hasSay {target : String} (h : r.HasSay electorate name desc target) :
    (r.nameIn electorate name desc target).result =
      .ok (some (r.naming.member ⟨target, name, desc⟩)) := by
  cases electorate with
  | everyTarget => rfl
  | declaringTargets =>
    rw [nameIn, declares, Hierarchy.declares_eq_true_iff.2 h]
    rfl

theorem nameIn_of_not_hasSay {target : String} (h : ¬r.HasSay electorate name desc target) :
    (r.nameIn electorate name desc target).result = .ok none := by
  cases electorate with
  | everyTarget => exact absurd trivial h
  | declaringTargets =>
    have hnot : r.hierarchy.declares target name desc = false := by
      rw [Bool.eq_false_iff, ne_eq, Hierarchy.declares_eq_true_iff]
      exact h
    rw [nameIn, declares, hnot]
    rfl

section NameAcross

variable (site : Site) (label : String)

theorem nameAcross_plain (name : String) (t : TargetSet) (electorate : Electorate) :
    (r.nameAcross site label name t electorate).Plain := by
  change Congruence.plain.attempts (r.nameAcross site label name t electorate)
    (r.nameAcross site label name t electorate)
  exact Congruence.plain.agree (nameIn_plain electorate name site.member.desc) ""
    (.disjointNames site.member label name) t.classes

theorem nameAcross_of_unvoiced
    (h : ∀ c ∈ t.classes, ¬r.HasSay electorate name site.member.desc c) :
    (r.nameAcross site label name t electorate).result = .ok none :=
  agree_eq_ok.2 ⟨fun c hc => .inl (nameIn_of_not_hasSay (h c hc)), .inl rfl⟩

theorem nameAcross_of_agreed (h : r.Agreed electorate t name site.member.desc newName) :
    (r.nameAcross site label name t electorate).result = .ok (some newName) := by
  have hvote : ∀ c ∈ t.classes, r.HasSay electorate name site.member.desc c →
      (r.nameIn electorate name site.member.desc c).result = .ok (some newName) := by
    intro c hc hsay
    rw [nameIn_of_hasSay hsay, h.unanimous c hc hsay]
  obtain ⟨c, hc, hsay⟩ := h.voiced
  refine agree_eq_ok.2 ⟨fun d hd => ?_, .inr ⟨c, hc, hvote c hc hsay⟩⟩
  by_cases hsay' : r.HasSay electorate name site.member.desc d
  · exact .inr (hvote d hd hsay')
  · exact .inl (nameIn_of_not_hasSay hsay')

theorem nameAcross_of_torn (h : r.Torn electorate t name site.member.desc)
    (found : Option String) :
    (r.nameAcross site label name t electorate).result ≠ .ok found := by
  obtain ⟨c, hc, d, hd, hsay, hsay', hne⟩ := h
  intro hfound
  have hfor : ∀ x ∈ t.classes, r.HasSay electorate name site.member.desc x →
      some (r.naming.member ⟨x, name, site.member.desc⟩) = found := by
    intro x hx hsayx
    rcases (agree_eq_ok.1 hfound).1 x hx with hvote | hvote
    · rw [nameIn_of_hasSay hsayx] at hvote
      cases hvote
    · rw [nameIn_of_hasSay hsayx] at hvote
      exact Except.ok.inj hvote
  exact hne (Option.some.inj ((hfor c hc hsay).trans (hfor d hd hsay').symm))

theorem nameAcross_of_not_torn (h : ¬r.Torn electorate t name site.member.desc) :
    ∃ found, (r.nameAcross site label name t electorate).result = .ok found := by
  by_cases hvoiced : ∃ c ∈ t.classes, r.HasSay electorate name site.member.desc c
  · rcases agreed_or_torn hvoiced with ⟨newName, hagreed⟩ | htorn
    · exact ⟨some newName, nameAcross_of_agreed site label hagreed⟩
    · exact absurd htorn h
  · refine ⟨none, nameAcross_of_unvoiced site label fun c hc hsay => ?_⟩
    exact hvoiced ⟨c, hc, hsay⟩

end NameAcross

theorem effect_report (location : String) (feature : Feature) :
    (r.report location feature).effect = .reporting r.policy [] ⟨location, feature⟩ := by
  rw [report, Attempt.effect, Effect.reporting]
  cases r.policy.refusal ⟨location, feature⟩ <;> rfl

section Guard

theorem guardInterfaces_plain (site : Site) (label : String) (t : TargetSet)
    (interfaces : List String) : (r.guardInterfaces site label t interfaces).Plain := by
  induction interfaces with
  | nil => exact .answer ()
  | cons interface rest ih =>
    rw [guardInterfaces]
    split
    · refine .bind (.ask _ _) fun declared => ?_
      split
      · exact .refuse "" _
      · exact ih
    · exact ih

/-- The guard lets a rename through if no protected interface provides the member. -/
theorem guardInterfaces_eq_ok {label : String} {interfaces : List String} :
    (r.guardInterfaces site label t interfaces).result = .ok () ↔
      ∀ interface ∈ interfaces, r.policy.protects interface t = true →
        ¬r.hierarchy.Provides site.member.name site.member.desc interface := by
  induction interfaces with
  | nil => simp [guardInterfaces, Attempt.answer]
  | cons interface rest ih =>
    rw [List.forall_mem_cons, ← ih, guardInterfaces, ← Hierarchy.declares_eq_true_iff]
    cases hprotects : r.policy.protects interface t with
    | false => simp
    | true =>
      cases hdeclares : r.hierarchy.declares interface site.member.name site.member.desc with
      | false => simp [declares, hdeclares, Attempt.bind_eq_ok]
      | true => simp [declares, hdeclares, Attempt.bind_eq_ok, Attempt.stop]

theorem guardInterfaces_eq_ok_iff_not_shields {label : String} :
    (r.guardInterfaces site label t site.interfaces).result = .ok () ↔ ¬r.Shields site t := by
  simp only [guardInterfaces_eq_ok, Shields, not_exists, not_and]

/-- A rename behind a plain guard, which lets it through unless the member is shielded. -/
theorem effect_rename {guard : Attempt Unit} {shielded : Prop} (hplain : guard.Plain)
    (hguard : guard.result = .ok () ↔ ¬shielded) (newName : String) :
    (if newName = site.member.name then .answer () else
      guard.bind fun _ => decideRename site newName : Attempt Unit).effect.Names [] site.member
        shielded newName where
  same hname := by
    rw [if_pos hname]
    rfl
  refused hname hshielded := by
    rw [if_neg hname]
    refine hplain.refused_bind (fun _ hok => ?_) _
    exact hguard.1 hok hshielded
  renamed hname hshielded := by
    rw [if_neg hname, hplain.effect_bind (hguard.2 hshielded)]
    rfl

end Guard

end MixinNaming.Remapper
