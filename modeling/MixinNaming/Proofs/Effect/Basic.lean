import MixinNaming.Policy
import MixinNaming.Proofs.Coupling.Basic
import MixinNaming.Proofs.Outcome
/-! What a run shows on the outside: the renames that it has decided, the gaps that it has reported
and the fault that has stopped it. Most steps of a run are plain. They show nothing, and what can
stop them is a fault of the mixin itself. -/
namespace MixinNaming

variable {α β : Type}

structure Effect where
  renames : List Rename
  gaps : List Gap
  fault : Option Fault

namespace Effect

def passing (gaps : List Gap) : Effect := ⟨[], gaps, none⟩

def reporting (p : Policy) (before : List Gap) (gap : Gap) : Effect :=
  ⟨[], before ++ [gap], p.refusal gap⟩

def after (before : List Gap) (e : Effect) : Effect := { e with gaps := before ++ e.gaps }

/-- A fault of the mixin itself stops the run, and nothing has been renamed. -/
structure Refused (before : List Gap) (e : Effect) : Prop where
  renames : e.renames = []
  gaps : e.gaps = before
  fault : ∃ f, e.fault = some f ∧ f.isStructural = true

/-- The member gets that name. It keeps the name that it has already; otherwise it is renamed once,
unless it is protected. -/
structure Names (before : List Gap) (m : MemberRef) (shielded : Prop) (newName : String)
    (e : Effect) : Prop where
  same : newName = m.name → e = passing before
  refused : newName ≠ m.name → shielded → e.Refused before
  renamed : newName ≠ m.name → ¬shielded → e = ⟨[⟨m, newName⟩], before, none⟩

structure Alike (e e' : Effect) : Prop where
  renames : e'.renames = e.renames
  gaps : e'.gaps = e.gaps
  fault : e'.fault.map Fault.isStructural = e.fault.map Fault.isStructural

variable {before : List Gap} {e : Effect}

theorem Alike.refl (e : Effect) : e.Alike e := ⟨rfl, rfl, rfl⟩

theorem Refused.alike {e' : Effect} (h : e.Refused before) (h' : e'.Refused before) :
    e.Alike e' := by
  obtain ⟨f, hf, hstructural⟩ := h.fault
  obtain ⟨f', hf', hstructural'⟩ := h'.fault
  refine ⟨h'.renames.trans h.renames.symm, h'.gaps.trans h.gaps.symm, ?_⟩
  rw [hf, hf', Option.map_some, Option.map_some, hstructural, hstructural']

/-- The name and the protection of a member determine the effect but for the text of a fault. -/
theorem Names.alike {e' : Effect} {m : MemberRef} {shielded shielded' : Prop} {newName : String}
    (h : e.Names before m shielded newName) (h' : e'.Names before m shielded' newName)
    (hshielded : shielded' ↔ shielded) : e.Alike e' := by
  by_cases hname : newName = m.name
  · rw [h.same hname, h'.same hname]
    exact .refl _
  · by_cases hprotected : shielded
    · exact (h.refused hname hprotected).alike (h'.refused hname (hshielded.2 hprotected))
    · rw [h.renamed hname hprotected, h'.renamed hname (mt hshielded.1 hprotected)]
      exact .refl _

theorem Names.renames_of_shielded {m : MemberRef} {shielded : Prop} {newName : String}
    (h : e.Names before m shielded newName) (hshielded : shielded) : e.renames = [] := by
  by_cases hname : newName = m.name
  · rw [h.same hname]
    rfl
  · exact (h.refused hname hshielded).renames

theorem reporting_after (p : Policy) (gap : Gap) (before : List Gap) :
    (reporting p [] gap).after before = reporting p before gap := rfl

theorem Refused.after (h : e.Refused []) (before : List Gap) : (e.after before).Refused before :=
  ⟨h.renames, by rw [Effect.after, h.gaps, List.append_nil], h.fault⟩

theorem Names.after {m : MemberRef} {shielded : Prop} {newName : String}
    (h : e.Names [] m shielded newName) (before : List Gap) :
    (e.after before).Names before m shielded newName where
  same hname := by
    rw [h.same hname, Effect.after, passing, passing, List.append_nil]
  refused hname hshielded := (h.refused hname hshielded).after before
  renamed hname hshielded := by
    rw [h.renamed hname hshielded, Effect.after, List.append_nil]

end Effect

namespace Attempt

def effect (x : Attempt α) : Effect where
  renames := Event.renames x.events
  gaps := Event.gaps x.events
  fault := match x.result with
    | .ok _ => none
    | .error f => some f

theorem effect_fault_eq_none {x : Attempt α} :
    x.effect.fault = none ↔ ∃ a, x.result = .ok a := by
  rw [effect]
  cases x.result with
  | ok a => simp
  | error f => simp

/-- An answer in place of the one that was found shows nothing more. -/
theorem effect_bind_answer (x : Attempt α) (b : β) :
    (x.bind fun _ => answer b).effect = x.effect := by
  obtain ⟨events, result⟩ := x
  cases result with
  | error f => rfl
  | ok a =>
    change Effect.mk (Event.renames (events ++ [])) (Event.gaps (events ++ [])) none = _
    rw [List.append_nil]
    rfl

/-- It shows nothing, and only a fault of the mixin itself can stop it. -/
structure Plain (x : Attempt α) : Prop where
  silent : x.Silent
  ungapped : Event.gaps x.events = []
  structural : x.Structural

namespace Plain

variable {x : Attempt α}

theorem answer (a : α) : (answer a).Plain := ⟨rfl, rfl, structural_answer a⟩

theorem refuse (location : String) (v : Violation) :
    (stop (.illegal location v) : Attempt α).Plain :=
  ⟨rfl, rfl, structural_refuse location v⟩

theorem ask (q : Query) (a : α) : (⟨[.query q], .ok a⟩ : Attempt α).Plain :=
  ⟨rfl, rfl, fun _ hf => nomatch hf⟩

theorem bind {f : α → Attempt β} (hx : x.Plain) (hf : ∀ a, (f a).Plain) : (x.bind f).Plain where
  silent := hx.silent.bind fun a => (hf a).silent
  ungapped := Congruence.ungapped.bind (y := x) (g := f) hx.ungapped fun a => (hf a).ungapped
  structural := hx.structural.bind fun a => (hf a).structural

theorem refused (h : x.Plain) (hx : ∀ a, x.result ≠ .ok a) : x.effect.Refused [] := by
  refine ⟨h.silent, h.ungapped, ?_⟩
  cases hresult : x.result with
  | ok a => exact absurd hresult (hx a)
  | error f => exact ⟨f, by rw [effect, hresult], h.structural f hresult⟩

/-- A plain step that finds its answer leaves the effect to what follows it. -/
theorem effect_bind {a : α} (h : x.Plain) (ha : x.result = .ok a) (f : α → Attempt β) :
    (x.bind f).effect = (f a).effect := by
  have hsilent : Event.renames x.events = [] := h.silent
  rw [effect, effect, Attempt.bind, ha, Event.renames_append, Event.gaps_append, hsilent,
    h.ungapped]
  rfl

theorem refused_bind (h : x.Plain) (hx : ∀ a, x.result ≠ .ok a) (f : α → Attempt β) :
    (x.bind f).effect.Refused [] := by
  have hrefused := h.refused hx
  rw [Attempt.bind]
  cases hresult : x.result with
  | ok a => exact absurd hresult (hx a)
  | error e =>
    rw [effect, hresult] at hrefused
    exact hrefused

end Plain

end Attempt

namespace Edit

def effect (e : Edit α) : Effect := ⟨Event.renames e.events, Event.gaps e.events, e.fault⟩

structure Plain (e : Edit α) : Prop where
  silent : e.Silent
  ungapped : Event.gaps e.events = []
  structural : e.Structural

@[simp] theorem effect_map (f : α → β) (e : Edit α) : (e.map f).effect = e.effect := rfl

theorem effect_check (x : Attempt Unit) (a : α) : (check x a).effect = x.effect := by
  obtain ⟨events, result⟩ := x
  cases result with
  | error f => rfl
  | ok b =>
    change Effect.mk (Event.renames (events ++ [])) (Event.gaps (events ++ [])) none = _
    rw [List.append_nil]
    rfl

/-- Gaps on the way to an answer come before all that the answer leads to. -/
theorem effect_given {x : Attempt β} {b : β} (hx : x.Silent) (hb : x.result = .ok b) (a : α)
    (f : β → Edit α) : (given x a f).effect = (f b).effect.after (Event.gaps x.events) := by
  have hsilent : Event.renames x.events = [] := hx
  rw [effect, given, hb]
  dsimp only
  rw [Event.renames_append, Event.gaps_append, hsilent]
  rfl

namespace Plain

variable {e : Edit α}

theorem keep (a : α) : (keep a).Plain := ⟨rfl, rfl, structural_keep a⟩

theorem refuse (a : α) (location : String) (v : Violation) :
    (stop a (.illegal location v)).Plain :=
  ⟨rfl, rfl, structural_refuse a location v⟩

theorem map (h : e.Plain) (f : α → β) : (e.map f).Plain := ⟨h.silent, h.ungapped, h.structural⟩

theorem given {x : Attempt β} (a : α) {f : β → Edit α} (hx : x.Plain) (hf : ∀ b, (f b).Plain) :
    (given x a f).Plain where
  silent := Congruence.silent.given (y := x) (g := f) a hx.silent fun b => (hf b).silent
  ungapped := Congruence.ungapped.given (y := x) (g := f) a hx.ungapped fun b => (hf b).ungapped
  structural := by
    intro e he
    rw [Edit.given] at he
    cases hresult : x.result with
    | ok b =>
      rw [hresult] at he
      exact (hf b).structural e he
    | error e' =>
      rw [hresult] at he
      exact hx.structural e (hresult.trans (congrArg _ (Option.some.inj he)))

theorem andThen {f : α → Edit α} (h : e.Plain) (hf : ∀ a, (f a).Plain) : (e.andThen f).Plain where
  silent := Congruence.silent.andThen (e := e) (g := f) h.silent fun a => (hf a).silent
  ungapped := Congruence.ungapped.andThen (e := e) (g := f) h.ungapped fun a => (hf a).ungapped
  structural := by
    cases hfault : e.fault with
    | some x =>
      rw [andThen_of_some hfault]
      exact h.structural
    | none =>
      rw [andThen_of_none hfault]
      exact (hf e.value).structural

theorem each {f : α → Edit α} {items : List α} (h : ∀ a ∈ items, (f a).Plain) :
    (each f items).Plain := by
  induction items with
  | nil => exact .keep []
  | cons a rest ih =>
    rw [List.forall_mem_cons] at h
    obtain ⟨ha, hrest⟩ := h
    cases hfault : (f a).fault with
    | some x =>
      rw [each_cons_of_some hfault]
      exact ha.map _
    | none =>
      have hmore := ih hrest
      rw [each_cons_of_none hfault]
      refine ⟨?_, ?_, hmore.structural⟩
      · exact (Event.renames_append _ _).trans (List.append_eq_nil_iff.2 ⟨ha.silent, hmore.silent⟩)
      · exact (Event.gaps_append _ _).trans
          (List.append_eq_nil_iff.2 ⟨ha.ungapped, hmore.ungapped⟩)

theorem refused (h : e.Plain) (hfault : e.fault ≠ none) : e.effect.Refused [] := by
  obtain ⟨f, hf⟩ := Option.ne_none_iff_exists'.1 hfault
  exact ⟨h.silent, h.ungapped, f, hf, h.structural f hf⟩

/-- A plain edit that completes leaves the effect to what follows it. -/
theorem effect_andThen (h : e.Plain) (hfault : e.fault = none) (f : α → Edit α) :
    (e.andThen f).effect = (f e.value).effect := by
  have hsilent : Event.renames e.events = [] := h.silent
  rw [andThen_of_none hfault, effect, Event.renames_append, Event.gaps_append, hsilent, h.ungapped]
  rfl

theorem refused_andThen (h : e.Plain) (hfault : e.fault ≠ none) (f : α → Edit α) :
    (e.andThen f).effect.Refused [] := by
  obtain ⟨x, hx⟩ := Option.ne_none_iff_exists'.1 hfault
  rw [andThen_of_some hx]
  exact h.refused hfault

end Plain

end Edit

def Congruence.plain : Congruence where
  attempts x _ := x.Plain
  edits d _ := d.Plain
  answer := .answer
  refuse := .refuse
  ask := .ask
  bind hx hf := hx.bind hf
  keep := .keep
  given a _ _ hx hf := .given a hx hf
  map f _ _ h := h.map f
  andThen hd hf := hd.andThen hf

end MixinNaming
