import MixinNaming.Proofs.Coupling.ClassPass
import MixinNaming.Proofs.Outcome
/-! What a policy decides. A run that tolerates no gap is the run that tolerates all of them, cut
off after its first gap; without a gap the two are one run. In particular a structural fault never
depends on the policy. -/
namespace MixinNaming

variable {α β : Type}

namespace Policy

def forgiving (p : Policy) : Policy := { p with refusal := fun _ => none }

def unforgiving (p : Policy) : Policy := { p with refusal := fun gap => some (.missing gap) }

end Policy

namespace Attempt

/-- The second attempt is the first one up to and including its first gap. -/
inductive CutAtGap : Attempt α → Attempt α → Prop where
  | whole (x : Attempt α) : Event.gaps x.events = [] → x.Structural → CutAtGap x x
  | cut (before after : List Event) (g : Gap) (result : Except Fault α) :
      Event.gaps before = [] → Structural ⟨before ++ .gap g :: after, result⟩ →
      CutAtGap ⟨before ++ .gap g :: after, result⟩ ⟨before ++ [.gap g], .error (.missing g)⟩

namespace CutAtGap

theorem structural {x y : Attempt α} (h : CutAtGap x y) : x.Structural := by
  cases h with
  | whole x _ hs => exact hs
  | cut _ _ _ _ _ hs => exact hs

theorem after {x y : Attempt α} {events : List Event} (hq : Event.gaps events = [])
    (h : CutAtGap x y) :
    CutAtGap ⟨events ++ x.events, x.result⟩ ⟨events ++ y.events, y.result⟩ := by
  cases h with
  | whole x hx hs => exact .whole _ (Event.gaps_append_eq_nil hq hx) hs
  | cut before rest g result hb hs =>
    have hc := cut (events ++ before) rest g result (Event.gaps_append_eq_nil hq hb) hs
    simpa only [List.append_assoc] using hc

theorem bind {x y : Attempt α} {f g : α → Attempt β} (h : CutAtGap x y)
    (hf : ∀ a, CutAtGap (f a) (g a)) : CutAtGap (x.bind f) (y.bind g) := by
  cases h with
  | whole x hq hs =>
    obtain ⟨events, result⟩ := x
    cases result with
    | error e => exact .whole ⟨events, .error e⟩ hq fun f hf => hs f (by simpa using hf)
    | ok a => exact (hf a).after hq
  | cut before rest gap result hq hs =>
    cases result with
    | error e => exact .cut before rest gap (.error e) hq fun f hf => hs f (by simpa using hf)
    | ok a =>
      have hc := cut before (rest ++ (f a).events) gap (f a).result hq (hf a).structural
      simpa only [Attempt.bind, List.append_assoc, List.cons_append] using hc

end CutAtGap

end Attempt

namespace Edit

/-- The second edit is the first one up to and including its first gap; where the value stood at
that moment is left open. -/
inductive CutAtGap : Edit α → Edit α → Prop where
  | whole (e : Edit α) : Event.gaps e.events = [] → e.Structural → CutAtGap e e
  | cut (before after : List Event) (g : Gap) (a b : α) (fault : Option Fault) :
      Event.gaps before = [] → Structural ⟨a, before ++ .gap g :: after, fault⟩ →
      CutAtGap ⟨a, before ++ .gap g :: after, fault⟩ ⟨b, before ++ [.gap g], some (.missing g)⟩

namespace CutAtGap

theorem structural {d e : Edit α} (h : CutAtGap d e) : d.Structural := by
  cases h with
  | whole d _ hs => exact hs
  | cut _ _ _ _ _ _ _ hs => exact hs

theorem after {d e : Edit α} {events : List Event} (hq : Event.gaps events = [])
    (h : CutAtGap d e) :
    CutAtGap ⟨d.value, events ++ d.events, d.fault⟩ ⟨e.value, events ++ e.events, e.fault⟩ := by
  cases h with
  | whole d hd hs => exact .whole _ (Event.gaps_append_eq_nil hq hd) hs
  | cut before rest g a b fault hb hs =>
    have hc := cut (events ++ before) rest g a b fault (Event.gaps_append_eq_nil hq hb) hs
    simpa only [List.append_assoc] using hc

theorem given {x y : Attempt β} (a : α) {f g : β → Edit α} (h : x.CutAtGap y)
    (hf : ∀ b, CutAtGap (f b) (g b)) : CutAtGap (.given x a f) (.given y a g) := by
  cases h with
  | whole x hq hs =>
    obtain ⟨events, result⟩ := x
    cases result with
    | error e => exact .whole ⟨a, events, some e⟩ hq fun f hf => hs f (by simpa using hf)
    | ok b => exact (hf b).after hq
  | cut before rest gap result hq hs =>
    cases result with
    | error e =>
      exact .cut before rest gap a a (some e) hq fun f hf => hs f (by simpa using hf)
    | ok b =>
      have hc := cut before (rest ++ (f b).events) gap (f b).value a (f b).fault hq
        (hf b).structural
      simpa only [Edit.given, List.append_assoc, List.cons_append] using hc

theorem map (f : α → β) {d e : Edit α} (h : CutAtGap d e) : CutAtGap (d.map f) (e.map f) := by
  cases h with
  | whole d hq hs => exact .whole (d.map f) hq hs
  | cut before rest g a b fault hq hs => exact .cut before rest g (f a) (f b) fault hq hs

theorem andThen {d e : Edit α} {f g : α → Edit α} (h : CutAtGap d e)
    (hf : ∀ a, CutAtGap (f a) (g a)) : CutAtGap (d.andThen f) (e.andThen g) := by
  cases h with
  | whole d hq hs =>
    obtain ⟨a, events, fault⟩ := d
    cases fault with
    | some x => exact .whole ⟨a, events, some x⟩ hq hs
    | none => exact (hf a).after hq
  | cut before rest gap a b fault hq hs =>
    cases fault with
    | some x => exact .cut before rest gap a b (some x) hq hs
    | none =>
      have hc := cut before (rest ++ (f a).events) gap (f a).value b (f a).fault hq
        (hf a).structural
      simpa only [Edit.andThen, List.append_assoc, List.cons_append] using hc

end CutAtGap

end Edit

def Coupling.firstGap : Coupling where
  attempts := Attempt.CutAtGap
  edits := Edit.CutAtGap
  answer a := .whole (.answer a) rfl (Attempt.structural_answer a)
  refuse location v :=
    .whole (.stop (.illegal location v)) rfl (Attempt.structural_refuse location v)
  ask q a := .whole ⟨[.query q], .ok a⟩ rfl (by simp [Attempt.Structural])
  rename site newName := .whole (Remapper.decideRename site newName) rfl (by
    simp [Attempt.Structural, Remapper.decideRename])
  bind := Attempt.CutAtGap.bind
  keep a := .whole (.keep a) rfl (Edit.structural_keep a)
  given := Edit.CutAtGap.given
  map := Edit.CutAtGap.map
  andThen := Edit.CutAtGap.andThen

theorem report_firstGap (n : Naming) (h : Hierarchy) (p : Policy) (location : String)
    (feature : Feature) :
    Coupling.firstGap.attempts (Remapper.report ⟨n, h, p.forgiving⟩ location feature)
      (Remapper.report ⟨n, h, p.unforgiving⟩ location feature) :=
  Attempt.CutAtGap.cut [] [] ⟨location, feature⟩ (.ok ()) rfl (by simp [Attempt.Structural])

theorem coupled_firstGap (n : Naming) (h : Hierarchy) (p : Policy) (t : TargetSet) :
    Coupled Coupling.firstGap ⟨n, h, p.forgiving⟩ ⟨n, h, p.unforgiving⟩ t t :=
  .of_policies (report_firstGap n h p) rfl rfl t

/-- Gaps are listed by their descriptions, and the fault of a run that stops at a gap says the
description of that gap. -/
theorem unforgiving_run_stops_at_first_gap (n : Naming) (h : Hierarchy) (p : Policy)
    (c : MixinClass) :
    let free := Remapper.remapClass ⟨n, h, p.forgiving⟩ c
    let strict := Remapper.remapClass ⟨n, h, p.unforgiving⟩ c
    (∀ g, free.fault ≠ some (.missing g)) ∧
      match Event.gaps free.events with
      | [] => strict = free
      | g :: _ =>
        strict.fault = some (.missing g) ∧ Event.gaps strict.events = [g] ∧
          Event.renames strict.events <+: Event.renames free.events := by
  intro free strict
  have hcut : Edit.CutAtGap free strict := (coupled_firstGap n h p _).remapClass
  refine ⟨fun g hg => ?_, ?_⟩
  · have hs := hcut.structural (.missing g) hg
    cases hs
  · generalize free = d at hcut ⊢
    generalize strict = e at hcut ⊢
    cases hcut with
    | whole d hq _ =>
      rw [hq]
    | cut before after g a b fault hq _ =>
      have hg : Event.gaps (before ++ .gap g :: after) = g :: Event.gaps after := by
        rw [Event.gaps_append, hq]
        rfl
      rw [hg]
      refine ⟨rfl, ?_, ?_⟩
      · rw [Event.gaps_append, hq]
        rfl
      · rw [Event.renames_append, Event.renames_append]
        exact (List.prefix_append_right_inj _).2 (List.nil_prefix)

end MixinNaming
