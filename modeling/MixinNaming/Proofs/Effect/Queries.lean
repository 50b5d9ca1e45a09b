import MixinNaming.Proofs.Effect.Overwrite
import MixinNaming.Proofs.Member.Classification
/-! What the class hierarchy is asked for the sake of an overwritten method. All targets have a say
in its name, so none of them is asked whether it declares the method: the questions are whether an
interface provides it, and which targets declare the aliases of an @Overwrite. -/
namespace MixinNaming

variable {α β : Type} {p : Query → Prop}

def Attempt.Asks (p : Query → Prop) (x : Attempt α) : Prop := ∀ q ∈ Event.queries x.events, p q

def Edit.Asks (p : Query → Prop) (e : Edit α) : Prop := ∀ q ∈ Event.queries e.events, p q

theorem Event.forall_queries_of_nil {events : List Event} (h : queries events = []) :
    ∀ q ∈ queries events, p q := by
  intro q hq
  rw [h] at hq
  cases hq

theorem Event.forall_queries_append {a b : List Event} :
    (∀ q ∈ queries (a ++ b), p q) ↔ (∀ q ∈ queries a, p q) ∧ ∀ q ∈ queries b, p q := by
  rw [queries_append, List.forall_mem_append]

namespace Attempt.Asks

theorem nothing {x : Attempt α} (h : Event.queries x.events = []) : x.Asks p :=
  Event.forall_queries_of_nil h

theorem bind {x : Attempt α} {f : α → Attempt β} (hx : x.Asks p) (hf : ∀ a, (f a).Asks p) :
    (x.bind f).Asks p := by
  obtain ⟨events, result⟩ := x
  cases result with
  | error e => exact hx
  | ok a => exact Event.forall_queries_append.2 ⟨hx, hf a⟩

theorem agree [DecidableEq β] {vote : α → Attempt (Option β)} {torn : β → β → Fault}
    {candidates : List α} (h : ∀ a ∈ candidates, (vote a).Asks p) :
    (agree vote torn candidates).Asks p := by
  rw [MixinNaming.agree]
  generalize (none : Option β) = found
  induction candidates generalizing found with
  | nil => exact .nothing rfl
  | cons a rest ih =>
    obtain ⟨ha, hrest⟩ := List.forall_mem_cons.1 h
    refine ha.bind fun ballot => ?_
    cases ballot with
    | none => exact ih hrest found
    | some b =>
      cases found with
      | none => exact ih hrest (some b)
      | some first =>
        dsimp only
        split
        · exact ih hrest (some first)
        · exact .nothing rfl

end Attempt.Asks

namespace Edit.Asks

theorem nothing {e : Edit α} (h : Event.queries e.events = []) : e.Asks p :=
  Event.forall_queries_of_nil h

theorem given {x : Attempt β} {a : α} {f : β → Edit α} (hx : x.Asks p)
    (hf : ∀ b, x.result = .ok b → (f b).Asks p) : (given x a f).Asks p := by
  obtain ⟨events, result⟩ := x
  cases result with
  | error e => exact hx
  | ok b => exact Event.forall_queries_append.2 ⟨hx, hf b rfl⟩

theorem check {x : Attempt Unit} (hx : x.Asks p) (a : α) : (check x a).Asks p :=
  given hx fun _ _ => .nothing rfl

theorem andThen {e : Edit α} {f : α → Edit α} (he : e.Asks p) (hf : ∀ a, (f a).Asks p) :
    (e.andThen f).Asks p := by
  obtain ⟨a, events, fault⟩ := e
  cases fault with
  | some x => exact he
  | none => exact Event.forall_queries_append.2 ⟨he, hf a⟩

theorem each {f : α → Edit α} {items : List α} (h : ∀ a ∈ items, (f a).Asks p) :
    (each f items).Asks p :=
  each_events (p := fun events => ∀ q ∈ Event.queries events, p q)
    (Event.forall_queries_of_nil rfl)
    (fun _ _ ha hb => Event.forall_queries_append.2 ⟨ha, hb⟩) h

end Edit.Asks

namespace Remapper

variable {r : Remapper} {site : Site} {t : TargetSet}

def AsksInterface (r : Remapper) (site : Site) (t : TargetSet) (q : Query) : Prop :=
  ∃ interface ∈ site.interfaces, r.policy.protects interface t = true ∧
    q = .declares interface site.member.name site.member.desc

def AsksAlias (t : TargetSet) (desc : String) (node : Annotation) (q : Query) : Prop :=
  ∃ c ∈ t.classes, ∃ e ∈ node.elements, e.1 = "aliases" ∧
    ∃ written, .string written ∈ e.2.items ∧ q = .declares c written desc

/-- Where every target has a say, none of them is asked. -/
theorem nameAcross_everyTarget_asks (site : Site) (label name : String) (t : TargetSet) :
    (r.nameAcross site label name t .everyTarget).Asks p :=
  .agree fun _ _ => .nothing rfl

theorem nameAcross_declaringTargets_asks (site : Site) (label name : String) (t : TargetSet) :
    (r.nameAcross site label name t .declaringTargets).Asks
      fun q => ∃ c ∈ t.classes, q = .declares c name site.member.desc :=
  .agree fun c hc _ hq => ⟨c, hc, List.mem_singleton.1 hq⟩

theorem guardInterfaces_asks (site : Site) (label : String) (t : TargetSet) :
    (r.guardInterfaces site label t site.interfaces).Asks (r.AsksInterface site t) := by
  have hall : ∀ interfaces ⊆ site.interfaces,
      (r.guardInterfaces site label t interfaces).Asks (r.AsksInterface site t) := by
    intro interfaces
    induction interfaces with
    | nil => exact fun _ => .nothing rfl
    | cons interface rest ih =>
      intro hsubset
      obtain ⟨hinterface, hrest⟩ := List.cons_subset.1 hsubset
      rw [guardInterfaces]
      split
      next hprotects =>
        have hask : (r.declares interface site.member.name site.member.desc).Asks
            (r.AsksInterface site t) :=
          fun q hq => ⟨interface, hinterface, hprotects, List.mem_singleton.1 hq⟩
        refine hask.bind fun declared => ?_
        split
        · exact .nothing rfl
        · exact ih hrest
      next => exact ih hrest
  exact hall site.interfaces (List.Subset.refl _)

/-- No target is asked for the name of an overwritten method. -/
theorem settleOverwrite_asks (site : Site) (t : TargetSet) (label : String) :
    (r.settleOverwrite site t label).Asks (r.AsksInterface site t) := by
  rw [settleOverwrite]
  refine (nameAcross_everyTarget_asks site label site.member.name t).bind fun found => ?_
  cases found with
  | none => exact .nothing rfl
  | some newName =>
    dsimp only
    split
    · exact .nothing rfl
    · exact (guardInterfaces_asks site label t).bind fun _ => .nothing rfl

theorem remapOverwriteElement_asks {node : Annotation} {e : String × AnnotationValue}
    (he : e ∈ node.elements) :
    (r.remapOverwriteElement site t e.1 e.2).Asks (AsksAlias t site.member.desc node) := by
  rw [remapOverwriteElement]
  split
  next hname =>
    rw [remapAliases]
    split
    · exact .nothing rfl
    next aliases haliases =>
      refine .each fun written hwritten =>
        Edit.Asks.given (fun q hq => ?_) fun _ _ => .nothing rfl
      obtain ⟨c, hc, rfl⟩ := nameAcross_declaringTargets_asks site overwriteLabel written t q hq
      have hitems := AnnotationValue.strings?_eq_some.1 haliases
      exact ⟨c, hc, e, he, hname, written, hitems ▸ List.mem_map_of_mem hwritten, rfl⟩
  · split
    · exact .nothing rfl
    · rw [check_report]
      exact .nothing rfl

theorem classify_asks (member : MemberRef) (annotations : List Annotation) :
    (r.classify member annotations).Asks p := by
  obtain ⟨passed, -, hevents⟩ := classifyFrom_events r member 0 none annotations
  intro q hq
  rw [classify, hevents] at hq
  obtain ⟨event, hevent, hquery⟩ := List.mem_filterMap.1 hq
  obtain ⟨gap, -, rfl⟩ := List.mem_map.1 hevent
  cases hquery

theorem remapMain_asks (site : Site) {without : Attempt Unit}
    {f : AnnotationKind → Annotation → Edit Annotation} {annotations : List Annotation}
    (hnone : (r.classify site.member annotations).result = .ok none → without.Asks p)
    (hsome : ∀ index kind node,
      (r.classify site.member annotations).result = .ok (some ⟨index, kind⟩) →
        annotations[index]? = some node → (f kind node).Asks p) :
    (r.remapMain site without f annotations).Asks p := by
  refine Edit.Asks.given (classify_asks site.member annotations) fun found hfound => ?_
  cases found with
  | none => exact .check (hnone hfound) annotations
  | some main =>
    dsimp only
    rw [Edit.atIndex]
    split
    next node hnode => exact hsome main.index main.kind node hfound hnode
    next => exact .nothing rfl

section Method

variable {mixin : String} {m : Member}

theorem remapMethod_asks_of_ungoverned
    (h : (r.classify (m.ref mixin) m.annotations).result = .ok none) (interfaces : List String) :
    (r.remapMethod mixin interfaces t m).Asks (r.AsksInterface ⟨m.ref mixin, interfaces⟩ t) := by
  refine remapMain_asks ⟨m.ref mixin, interfaces⟩ (fun _ => ?_)
    fun index kind node hfound _ => ?_
  · exact settleOverwrite_asks _ t implicitOverwriteLabel
  · cases h.symm.trans hfound

/-- The hierarchy is asked for interfaces, and for the aliases of the annotation if there is one. -/
theorem Overwritten.asks (h : r.Overwritten mixin t m) (interfaces : List String) :
    (r.remapMethod mixin interfaces t m).Asks fun q =>
      r.AsksInterface ⟨m.ref mixin, interfaces⟩ t q ∨
        ∃ a ∈ m.annotations, a.desc = Vocabulary.overwrite ∧ AsksAlias t m.desc a q := by
  cases h with
  | implicit hmain =>
    exact fun q hq => .inl (remapMethod_asks_of_ungoverned hmain interfaces q hq)
  | explicit hmain =>
    refine remapMain_asks ⟨m.ref mixin, interfaces⟩ (fun hnone => ?_)
      fun index kind node hfound hnode => ?_
    · cases hmain.symm.trans hnone
    · cases hmain.symm.trans hfound
      have hdesc : node.desc = Vocabulary.overwrite := desc_of_classify hmain hnode
      have hmem : node ∈ m.annotations := List.mem_of_getElem? hnode
      refine Edit.Asks.andThen (.each fun e he q hq => ?_) fun edited =>
        .check (fun q hq => ?_) edited
      · exact .inr ⟨node, hmem, hdesc, remapOverwriteElement_asks he q hq⟩
      · exact .inl (settleOverwrite_asks _ t overwriteLabel q hq)

end Method

end Remapper

end MixinNaming
