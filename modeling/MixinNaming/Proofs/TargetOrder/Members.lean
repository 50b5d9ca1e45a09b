import MixinNaming.Config.Basic
import MixinNaming.Proofs.Coupling.ClassPass
import MixinNaming.Proofs.Outcome
/-! Members do not see in which order the targets stand. Every question that is put to all targets
at once is a vote, and whether a vote succeeds and what it finds depends only on who votes. -/
namespace MixinNaming

variable {α β : Type}

/-- The policies that come with the program. -/
inductive Policy.Stock : Policy → Prop where
  | failFast : Stock .failFast
  | lenient : Stock .lenient
  | configured (c : Config) : Stock c.policy

/-- They pass over all gaps or over none, and a gap that stops them is no fault of the mixin. -/
theorem Policy.Stock.refusal_alike {p : Policy} (hp : p.Stock) (g g' : Gap) :
    (p.refusal g).map Fault.isStructural = (p.refusal g').map Fault.isStructural := by
  cases hp with
  | failFast => rfl
  | lenient => rfl
  | configured c =>
    rw [Config.policy]
    cases c.missingFeatures <;> rfl

theorem Policy.Stock.protects_eq {p : Policy} (hp : p.Stock) (interface : String)
    (t u : TargetSet) : p.protects interface t = p.protects interface u := by
  cases hp <;> rfl

def TargetSet.SameClasses (t u : TargetSet) : Prop := ∀ c, c ∈ t.classes ↔ c ∈ u.classes

/-- The same renames and the same answer, or faults of one category. -/
structure Attempt.Alike (x y : Attempt α) : Prop where
  renames : Event.renames x.events = Event.renames y.events
  result : x.result.mapError Fault.isStructural = y.result.mapError Fault.isStructural

structure Edit.Alike (d e : Edit α) : Prop where
  value : d.value = e.value
  renames : Event.renames d.events = Event.renames e.events
  fault : d.fault.map Fault.isStructural = e.fault.map Fault.isStructural

namespace Attempt.Alike

theorem refl (x : Attempt α) : x.Alike x := ⟨rfl, rfl⟩

theorem result_cases {x y : Attempt α} (h : x.Alike y) :
    (∃ a, x.result = .ok a ∧ y.result = .ok a) ∨
      ∃ e f, x.result = .error e ∧ y.result = .error f ∧ e.isStructural = f.isStructural := by
  have hr := h.result
  cases hx : x.result with
  | ok a =>
    cases hy : y.result with
    | ok b =>
      rw [hx, hy] at hr
      cases hr
      exact .inl ⟨a, rfl, rfl⟩
    | error f =>
      rw [hx, hy] at hr
      cases hr
  | error e =>
    cases hy : y.result with
    | ok b =>
      rw [hx, hy] at hr
      cases hr
    | error f =>
      rw [hx, hy] at hr
      exact .inr ⟨e, f, rfl, rfl, Except.error.inj hr⟩

theorem bind {x y : Attempt α} {f g : α → Attempt β} (h : x.Alike y)
    (hf : ∀ a, (f a).Alike (g a)) : (x.bind f).Alike (y.bind g) := by
  rcases h.result_cases with ⟨a, hx, hy⟩ | ⟨e, e', hx, hy, hk⟩
  · simp only [Attempt.bind, hx, hy]
    refine ⟨?_, (hf a).result⟩
    rw [Event.renames_append, Event.renames_append, h.renames, (hf a).renames]
  · simp only [Attempt.bind, hx, hy]
    exact ⟨h.renames, congrArg Except.error hk⟩

theorem given {x y : Attempt β} (a : α) {f g : β → Edit α} (h : x.Alike y)
    (hf : ∀ b, (f b).Alike (g b)) : (Edit.given x a f).Alike (Edit.given y a g) := by
  rcases h.result_cases with ⟨b, hx, hy⟩ | ⟨e, e', hx, hy, hk⟩
  · simp only [Edit.given, hx, hy]
    refine ⟨(hf b).value, ?_, (hf b).fault⟩
    rw [Event.renames_append, Event.renames_append, h.renames, (hf b).renames]
  · simp only [Edit.given, hx, hy]
    exact ⟨rfl, h.renames, congrArg some hk⟩

/-- First steps that decide no rename need not find the same if it makes no difference later. -/
theorem bind_of_ok {x y : Attempt α} {f g : α → Attempt β} {a b : α} (hx : x.Silent)
    (hy : y.Silent) (ha : x.result = .ok a) (hb : y.result = .ok b) (h : (f a).Alike (g b)) :
    (x.bind f).Alike (y.bind g) := by
  simp only [Attempt.bind, ha, hb]
  refine ⟨?_, h.result⟩
  rw [Event.renames_append, Event.renames_append, hx, hy, h.renames]

/-- Attempts that decide no rename and give the same answers are alike once all their faults are of
one category. -/
theorem of_ok_iff {x y : Attempt α} (hx : x.Silent) (hy : y.Silent) (hx' : x.Structural)
    (hy' : y.Structural) (h : ∀ a, x.result = .ok a ↔ y.result = .ok a) : x.Alike y := by
  refine ⟨hx.trans hy.symm, ?_⟩
  cases hr : x.result with
  | ok a => rw [(h a).1 hr]
  | error e =>
    cases hs : y.result with
    | ok b =>
      rw [(h b).2 hs] at hr
      cases hr
    | error f =>
      have hk : e.isStructural = f.isStructural := (hx' e hr).trans (hy' f hs).symm
      exact congrArg Except.error hk

end Attempt.Alike

theorem Edit.Alike.andThen {d e : Edit α} {f g : α → Edit α} (h : d.Alike e)
    (hf : ∀ a, (f a).Alike (g a)) : (d.andThen f).Alike (e.andThen g) := by
  obtain ⟨a, events, fault⟩ := d
  obtain ⟨b, events', fault'⟩ := e
  obtain ⟨rfl, hrenames, hfault⟩ := h
  cases fault with
  | none =>
    cases fault' with
    | none =>
      refine ⟨(hf a).value, ?_, (hf a).fault⟩
      have hrest := (hf a).renames
      simp only at hrenames
      simp only [Edit.andThen, Event.renames_append, hrenames, hrest]
    | some x => cases hfault
  | some x =>
    cases fault' with
    | none => cases hfault
    | some y => exact ⟨rfl, hrenames, hfault⟩

def Coupling.alike : Coupling where
  attempts := Attempt.Alike
  edits := Edit.Alike
  answer a := .refl (.answer a)
  refuse location v := .refl (.stop (.illegal location v))
  ask q a := .refl ⟨[.query q], .ok a⟩
  rename site newName := .refl (Remapper.decideRename site newName)
  bind := Attempt.Alike.bind
  keep _ := ⟨rfl, rfl, rfl⟩
  given a := Attempt.Alike.given a
  map f _ _ h := ⟨congrArg f h.value, h.renames, h.fault⟩
  andThen := Edit.Alike.andThen

/-- Two votes of the same candidates are alike, whatever their order and their number. -/
theorem agree_alike [DecidableEq β] {vote : α → Attempt (Option β)} {torn torn' : β → β → Fault}
    (hs : ∀ a, (vote a).Structural) (hr : ∀ a, (vote a).Silent)
    (ht : ∀ b c, (torn b c).isStructural = true) (ht' : ∀ b c, (torn' b c).isStructural = true)
    {candidates others : List α} (h : ∀ a, a ∈ candidates ↔ a ∈ others) :
    (agree vote torn candidates).Alike (agree vote torn' others) := by
  refine .of_ok_iff (agreeFrom_silent hr none candidates) (agreeFrom_silent hr none others)
    (agreeFrom_structural hs ht none candidates) (agreeFrom_structural hs ht' none others) ?_
  intro result
  rw [agree_eq_ok, agree_eq_ok]
  simp only [h]

section

variable {r : Remapper} {t u : TargetSet}

theorem report_alike (hp : r.policy.Stock) (location : String) (feature other : Feature) :
    (r.report location feature).Alike (r.report location other) := by
  have hrefusal := hp.refusal_alike ⟨location, feature⟩ ⟨location, other⟩
  cases hfeature : r.policy.refusal ⟨location, feature⟩ with
  | none =>
    rw [hfeature] at hrefusal
    have hother := Option.map_eq_none_iff.1 hrefusal.symm
    rw [Remapper.report_of_passed hfeature, Remapper.report_of_passed hother]
    exact ⟨rfl, rfl⟩
  | some f =>
    rw [hfeature] at hrefusal
    obtain ⟨g, hother, hstructural⟩ := Option.map_eq_some_iff.1 hrefusal.symm
    rw [Remapper.report_of_refused hfeature, Remapper.report_of_refused hother]
    exact ⟨rfl, congrArg Except.error hstructural.symm⟩

theorem inferCandidates_result (r : Remapper) (s : Selector) (filter : DescriptorFilter)
    (scope : List String) :
    (r.inferCandidates s filter scope).result = .ok (scope.flatMap fun c =>
      (r.hierarchy.infer c s.name s.desc).filter fun m => filter.accepts m.desc) := by
  induction scope with
  | nil => rfl
  | cons c rest ih =>
    rw [Remapper.inferCandidates, Attempt.bind_eq_ok]
    refine ⟨_, rfl, ?_⟩
    rw [Attempt.bind_eq_ok]
    exact ⟨_, ih, rfl⟩

theorem inferCandidates_silent (r : Remapper) (s : Selector) (filter : DescriptorFilter)
    (scope : List String) : (r.inferCandidates s filter scope).Silent := by
  induction scope with
  | nil => rfl
  | cons c rest ih =>
    have hc : (r.infer c s.name s.desc).Silent := rfl
    exact hc.bind fun _ => ih.bind fun _ => Attempt.silent_answer _

theorem canonical_structural (r : Remapper) (location : String) (m : MemberRef) :
    (r.canonical location m).Structural := by
  intro f hf
  rw [Remapper.canonical, Attempt.ofExcept] at hf
  cases hc : r.naming.canonical m with
  | error e =>
    rw [hc] at hf
    cases hf
    rfl
  | ok s =>
    rw [hc] at hf
    cases hf

theorem mem_scopeOf (ht : t.SameClasses u) (s : Selector) (c : String) :
    c ∈ Remapper.scopeOf s t ↔ c ∈ Remapper.scopeOf s u := by
  rw [Remapper.scopeOf, Remapper.scopeOf]
  split
  · rfl
  · exact ht c

theorem agreeOnCandidates_alike (location text : String) {candidates others : List MemberRef}
    (hm : ∀ m, m ∈ candidates ↔ m ∈ others) :
    (r.agreeOnCandidates location text candidates).Alike
      (r.agreeOnCandidates location text others) := by
  refine agree_alike (fun m => ?_) (fun m => ?_) (fun _ _ => rfl) (fun _ _ => rfl) hm
  · exact (canonical_structural r location m).bind fun s => Attempt.structural_answer (some s)
  · have hc : (r.canonical location m).Silent := rfl
    exact hc.bind fun s => Attempt.silent_answer (some s)

theorem inferSelector_alike (hp : r.policy.Stock) (ht : t.SameClasses u) (location text : String)
    (s : Selector) (filter : DescriptorFilter) :
    (r.inferSelector location text s t filter).Alike
      (r.inferSelector location text s u filter) := by
  refine .bind_of_ok (inferCandidates_silent r s filter _) (inferCandidates_silent r s filter _)
    (inferCandidates_result r s filter _) (inferCandidates_result r s filter _) ?_
  refine .bind (agreeOnCandidates_alike location text fun m => ?_) fun found => ?_
  · simp only [List.mem_flatMap, mem_scopeOf ht]
  · cases found with
    | some resolved => exact .refl (.answer resolved.render)
    | none => exact (report_alike hp location _ _).bind fun _ => .refl (.answer text)

theorem newName_alike (ht : t.SameClasses u) (d : DescReference) (location : String)
    (mode : DescMode) : (d.newName r location mode t).Alike (d.newName r location mode u) := by
  refine .bind (agree_alike (fun _ => ?_) (fun _ => ?_) (fun _ _ => rfl) (fun _ _ => rfl) ?_)
    fun found => .refl _
  · exact Attempt.structural_answer _
  · exact Attempt.silent_answer _
  · intro owner
    rw [DescReference.owners, DescReference.owners]
    split
    · rfl
    · exact ht owner

theorem nameAcross_alike (ht : t.SameClasses u) (site : Site) (label name : String)
    (electorate : Electorate) :
    (r.nameAcross site label name t electorate).Alike
      (r.nameAcross site label name u electorate) := by
  refine agree_alike (fun target => ?_) (fun target => ?_) (fun _ _ => rfl) (fun _ _ => rfl) ht
  · cases electorate with
    | everyTarget => exact Attempt.structural_answer _
    | declaringTargets =>
      intro f hf
      cases hf
  · cases electorate with
    | everyTarget => rfl
    | declaringTargets => rfl

theorem guardInterfaces_eq (hp : r.policy.Stock) (site : Site) (label : String)
    (interfaces : List String) :
    r.guardInterfaces site label t interfaces = r.guardInterfaces site label u interfaces := by
  induction interfaces with
  | nil => rfl
  | cons interface rest ih =>
    rw [Remapper.guardInterfaces, Remapper.guardInterfaces, hp.protects_eq interface t u, ih]

/-- A walk ends alike whatever the order in which its targets stand. -/
theorem coupled_alike (hp : r.policy.Stock) (ht : t.SameClasses u) :
    Coupled Coupling.alike r r t u where
  naming := rfl
  points := rfl
  report location feature := .refl (r.report location feature)
  selector location text s filter := inferSelector_alike hp ht location text s filter
  descName d location mode := newName_alike ht d location mode
  memberName site label name electorate := nameAcross_alike ht site label name electorate
  guard site label interfaces := by
    rw [guardInterfaces_eq hp site label interfaces]
    exact .refl (r.guardInterfaces site label u interfaces)

end

end MixinNaming
