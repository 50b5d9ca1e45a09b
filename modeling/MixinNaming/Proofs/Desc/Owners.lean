import MixinNaming.MappingTable
import MixinNaming.Proofs.Desc.Arguments
import MixinNaming.Proofs.Frame.References
/-! Whose names count for a @Desc. A class that the annotation states as owner speaks alone; without
one all targets speak, and there has to be one and they have to agree. As long as the name is not
certain nothing is written. -/
namespace MixinNaming

section Vote

variable {α β : Type} [DecidableEq β] (name : α → β) (torn : β → β → Fault) {first : β}
  {candidates : List α}

theorem agreeFrom_of_agreed (h : ∀ a ∈ candidates, name a = first) :
    agreeFrom (fun a => .answer (some (name a))) torn (some first) candidates =
      .answer (some first) := by
  induction candidates with
  | nil => rfl
  | cons a rest ih =>
    obtain ⟨ha, hrest⟩ := List.forall_mem_cons.1 h
    rw [agreeFrom, Attempt.answer_bind, ha]
    dsimp only
    rw [if_pos rfl, ih hrest]

/-- The first candidate that differs ends the vote. -/
theorem agreeFrom_of_differs (h : ∃ a ∈ candidates, name a ≠ first) :
    ∃ a ∈ candidates, name a ≠ first ∧
      agreeFrom (fun a => .answer (some (name a))) torn (some first) candidates =
        .stop (torn first (name a)) := by
  induction candidates with
  | nil =>
    obtain ⟨a, ha, -⟩ := h
    cases ha
  | cons a rest ih =>
    rw [agreeFrom, Attempt.answer_bind]
    dsimp only
    by_cases ha : first = name a
    · obtain ⟨c, hc, hne⟩ := h
      have hrest : c ∈ rest := by
        refine (List.mem_cons.1 hc).resolve_left ?_
        rintro rfl
        exact hne ha.symm
      obtain ⟨b, hb, hdiffers, hstop⟩ := ih ⟨c, hrest, hne⟩
      exact ⟨b, List.mem_cons_of_mem a hb, hdiffers, by rw [if_pos ha, hstop]⟩
    · exact ⟨a, List.mem_cons_self, Ne.symm ha, by rw [if_neg ha]⟩

end Vote

namespace Naming

variable {n : Naming} {table : MappingTable}

theorem LegalImages.className_ne_empty (h : n.LegalImages) {c : String} (hc : c ≠ "") :
    n.className c ≠ "" := by
  rw [Naming.className]
  cases hrenamed : n.class? c with
  | none => exact hc
  | some renamed =>
    have hlegal := h c renamed hrenamed
    exact fun hempty => hlegal.1 (String.toList_eq_nil_iff.2 hempty)

theorem legalImages_empty : MappingTable.empty.naming.LegalImages := by
  intro c renamed hc
  cases (Table.get?_empty c).symm.trans hc

theorem LegalImages.withClass (h : table.naming.LegalImages) (source : String) {renamed : String}
    (hrenamed : LegalClassName renamed) : (table.withClass source renamed).naming.LegalImages := by
  intro c image hc
  rcases (Table.get?_insert ..).symm.trans hc with hc
  split at hc
  · rw [← Option.some.inj hc]
    exact hrenamed
  · exact h c image hc

end Naming

namespace DescReference

variable {r : Remapper} {location : String} {t : TargetSet} {mode : DescMode} {node : Annotation}
  {d : DescReference}

/-- The node states the reference and nothing else, and its types make up a valid descriptor; for a
field it states a type, which is not that of a method. -/
structure Assembles (mode : DescMode) (node : Annotation) (d : DescReference) : Prop
    extends States mode node d where
  known : ∀ name ∈ node.names, isKnownElement name = true
  valid : Descriptor.validate d.desc = .ok ()
  typed : mode = .field → d.result ≠ none
  field : mode = .field → Descriptor.isMethod d.desc = false

theorem isMethod_build (arguments : List String) (result : String) :
    Descriptor.isMethod (Descriptor.build arguments result) = true := by
  rw [Descriptor.isMethod, Descriptor.toList_build]
  rfl

theorem Assembles.kind (h : Assembles mode node d) : mode = .ofDescriptor d.desc := by
  rw [DescMode.ofDescriptor]
  cases mode with
  | field => rw [h.field rfl]; rfl
  | method =>
    obtain ⟨arguments, -, hdesc⟩ := h.types
    rw [hdesc, isMethod_build]
    rfl

section Reading

theorem readName_of_states (h : States mode node d) : readName location node = .answer d.name := by
  rw [readName, h.name]

theorem readOwner_of_states (h : States mode node d) :
    readOwner location node = .answer d.owner := by
  rw [readOwner, h.owner]
  cases howner : d.owner with
  | none => rfl
  | some owner =>
    have hnamed : owner ≠ "" := fun hempty => h.named (howner.trans (congrArg some hempty))
    have hreference : (ClassLiteral.object owner).reference? = some owner :=
      ClassLiteral.reference?_eq_some.2 ⟨hnamed, rfl⟩
    simp only [Option.map_some, readLiteral, Attempt.answer_bind, hreference]

theorem readResult_of_states (h : States mode node d) :
    readResult location node = .answer d.result := by
  rw [readResult, h.result]
  cases d.result with
  | none => rfl
  | some type => rfl

theorem readArguments_literals (location : String) (types : List String) :
    readArguments location (literals types) = .answer types := by
  induction types with
  | nil => rfl
  | cons type rest ih =>
    change (readArguments location (literals rest)).bind _ = _
    rw [ih]
    rfl

theorem readDesc_of_states (h : States mode node d) (htyped : mode = .field → d.result ≠ none) :
    readDesc r location mode node d.result = .answer d.desc := by
  have htypes := h.types
  cases mode with
  | field =>
    obtain ⟨type, htype⟩ := Option.ne_none_iff_exists'.1 (htyped rfl)
    rw [Spells, htype] at htypes
    rw [htype, htypes]
    rfl
  | method =>
    obtain ⟨arguments, hitems, hdesc⟩ := htypes
    rw [hdesc]
    change (readArguments location (argumentItems node)).bind _ = _
    rw [hitems, readArguments_literals]
    rfl

/-- What a node states is read without a gap. -/
theorem Assembles.read (h : Assembles mode node d) :
    DescReference.read r location mode node = .answer d := by
  have hunknown : node.names.filter (fun name => !isKnownElement name) = [] :=
    List.filter_eq_nil_iff.2 fun name hname => by simp [h.known name hname]
  rw [DescReference.read, if_neg (not_not.2 h.desc), hunknown]
  change (readName location node).bind _ = _
  rw [readName_of_states h.toStates, Attempt.answer_bind, readOwner_of_states h.toStates,
    Attempt.answer_bind, readResult_of_states h.toStates, Attempt.answer_bind,
    readDesc_of_states h.toStates h.typed]
  rfl

end Reading

section NewName

def nameIn (d : DescReference) (n : Naming) (mode : DescMode) (owner : String) : String :=
  rename n mode ⟨owner, d.name, d.desc⟩

def Unanimous (d : DescReference) (n : Naming) (mode : DescMode) (owners : List String)
    (name : String) : Prop :=
  owners ≠ [] ∧ ∀ owner ∈ owners, d.nameIn n mode owner = name

theorem newName_of_unanimous {name : String}
    (h : d.Unanimous r.naming mode (d.owners t) name) :
    d.newName r location mode t = .answer name := by
  obtain ⟨hne, hall⟩ := h
  obtain ⟨owner, rest, howners⟩ := List.exists_cons_of_ne_nil hne
  rw [howners, List.forall_mem_cons] at hall
  have hvote := agreeFrom_of_agreed (d.nameIn r.naming mode)
    (fun first second => .illegal location (.tornDesc first second d.name d.desc)) hall.2
  rw [newName, agree, howners, agreeFrom, Attempt.answer_bind]
  dsimp only
  rw [← hall.1] at hvote ⊢
  exact congrArg (Attempt.bind · _) hvote

theorem newName_of_no_owners (h : d.owners t = []) :
    d.newName r location mode t = .stop (.illegal location .descWithoutOwner) := by
  rw [newName, h]
  rfl

theorem newName_of_torn {owner other : String} (howner : owner ∈ d.owners t)
    (hother : other ∈ d.owners t)
    (hne : d.nameIn r.naming mode owner ≠ d.nameIn r.naming mode other) :
    ∃ first ∈ d.owners t, ∃ second ∈ d.owners t,
      d.nameIn r.naming mode second ≠ d.nameIn r.naming mode first ∧
      d.newName r location mode t = .stop (.illegal location (.tornDesc
        (d.nameIn r.naming mode first) (d.nameIn r.naming mode second) d.name d.desc)) := by
  obtain ⟨first, rest, howners⟩ := List.exists_cons_of_ne_nil (List.ne_nil_of_mem howner)
  -- if no owner differed from the first, no two would differ from each other
  have hdiffers : ∃ c ∈ rest, d.nameIn r.naming mode c ≠ d.nameIn r.naming mode first := by
    by_contra hnone
    have hall : ∀ c ∈ d.owners t, d.nameIn r.naming mode c = d.nameIn r.naming mode first := by
      rw [howners, List.forall_mem_cons]
      exact ⟨rfl, fun c hc => by_contra fun hc' => hnone ⟨c, hc, hc'⟩⟩
    exact hne ((hall owner howner).trans (hall other hother).symm)
  obtain ⟨second, hsecond, hsecondNe, hvote⟩ := agreeFrom_of_differs (d.nameIn r.naming mode)
    (fun first second => .illegal location (.tornDesc first second d.name d.desc)) hdiffers
  refine ⟨first, howners ▸ List.mem_cons_self, second,
    howners ▸ List.mem_cons_of_mem first hsecond, hsecondNe, ?_⟩
  rw [newName, agree, howners, agreeFrom, Attempt.answer_bind]
  exact congrArg (Attempt.bind · _) hvote

/-- With an owner of its own the node refers to the same member whatever the targets are. -/
theorem newName_of_owner {owner : String} (h : d.owner = some owner) :
    d.newName r location mode t = .answer (d.nameIn r.naming mode owner) := by
  have howners : d.owners t = [owner] := by rw [owners, h]
  refine newName_of_unanimous ⟨?_, ?_⟩
  · rw [howners]
    exact List.cons_ne_nil owner []
  · rw [howners, List.forall_mem_singleton]

end NewName

structure RestatedBy (mode : DescMode) (node : Annotation) (d : DescReference) (n : Naming)
    (name : String) (edited : Annotation) : Prop where
  states : ∃ desc result, n.signature d.desc = .ok desc ∧
    States mode edited ⟨name, d.owner.map n.className, d.result.map fun _ => result, desc⟩
  names : edited.names = node.names

end DescReference

open DescReference

namespace Remapper

structure SettlesName (r : Remapper) (location : String) (mode : DescMode) (node : Annotation)
    (d : DescReference) : Prop where
  /-- A stated owner decides for all targets alike. -/
  owned : ∀ owner, d.owner = some owner → ∃ edited,
    RestatedBy mode node d r.naming (d.nameIn r.naming mode owner) edited ∧
      ∀ t, r.remapDesc location t mode node = .keep edited
  /-- Targets that agree on a name give it to the node. -/
  agreed : d.owner = none → ∀ t name, d.Unanimous r.naming mode t.classes name → ∃ edited,
    RestatedBy mode node d r.naming name edited ∧ r.remapDesc location t mode node = .keep edited
  untargeted : d.owner = none → ∀ t, t.classes = [] →
    r.remapDesc location t mode node = .stop node (.illegal location .descWithoutOwner)
  /-- Two targets that disagree stop the run before anything is written. -/
  torn : d.owner = none → ∀ t, ∀ c ∈ t.classes, ∀ c' ∈ t.classes,
    d.nameIn r.naming mode c ≠ d.nameIn r.naming mode c' → ∃ first second, first ≠ second ∧
      r.remapDesc location t mode node =
        .stop node (.illegal location (.tornDesc first second d.name d.desc))
  completes : d.owner = none → ∀ t, (r.remapDesc location t mode node).fault = none ↔
    ∃ name, d.Unanimous r.naming mode t.classes name

variable {r : Remapper} {location : String} {t : TargetSet} {mode : DescMode} {node : Annotation}
  {d : DescReference}

/-- What is left to do once the reference is read. -/
theorem remapDesc_of_read (hread : read r location mode node = .answer d) :
    r.remapDesc location t mode node = .given (d.newName r location mode t) node fun name =>
      match d.renameTypes r.naming mode (node.set "value" (.string name)) with
      | .error e => .stop (node.set "value" (.string name)) (.illegal location (.descriptor e))
      | .ok typed => .keep (d.renameOwner r.naming typed) := by
  rw [remapDesc, hread]
  rfl

theorem remapDesc_of_fault {f : Fault} (hread : read r location mode node = .answer d)
    (hname : d.newName r location mode t = .stop f) :
    r.remapDesc location t mode node = .stop node f := by
  rw [remapDesc_of_read hread, hname]
  rfl

theorem remapDesc_events {name : String} (hread : read r location mode node = .answer d)
    (hname : d.newName r location mode t = .answer name) :
    (r.remapDesc location t mode node).events = [] := by
  rw [remapDesc_of_read hread, hname, Edit.given]
  dsimp only [Attempt.answer]
  split
  · rfl
  · rfl

/-- A reference whose name is certain is restated, and nothing else happens. -/
theorem remapDesc_of_name (himages : r.naming.LegalImages) (h : Assembles mode node d)
    {name : String} (hname : d.newName r location mode t = .answer name) :
    ∃ edited, RestatedBy mode node d r.naming name edited ∧
      r.remapDesc location t mode node = .keep edited := by
  obtain ⟨u, hlegal, hrender⟩ := Descriptor.validate_eq_ok_iff.1 h.valid
  have hdesc : r.naming.signature d.desc = .ok (u.mapNames r.naming.className).render :=
    Descriptor.mapClassNames_eq_ok_iff.2 ⟨u, hlegal, hrender, rfl⟩
  have hclasses : ∀ c ∈ Descriptor.visitedNames d.desc, LegalClassName (r.naming.className c) := by
    rw [← hrender, Descriptor.visitedNames_render hlegal]
    exact fun c hc => himages.className (Descriptor.legal_iff.1 hlegal c hc)
  have hnamed : ∀ owner, d.owner = some owner → r.naming.className owner ≠ "" :=
    fun owner howner => himages.className_ne_empty fun hempty => h.named (hempty ▸ howner)
  have hread : read r location mode node = .answer d := h.read
  obtain ⟨hfault, result, hstates⟩ := remapDesc_states (congrArg Attempt.result hread)
    (congrArg Attempt.result hname) h.kind h.typed hdesc hclasses hnamed
  refine ⟨(r.remapDesc location t mode node).value, ⟨⟨_, result, hdesc, hstates⟩,
    (r.remapDesc_frame location t mode node).names_eq⟩, ?_⟩
  have hevents := remapDesc_events hread hname
  generalize r.remapDesc location t mode node = run at hfault hevents
  obtain ⟨value, events, fault⟩ := run
  cases hevents
  cases hfault
  rfl

section Ownerless

variable (hnone : d.owner = none)
include hnone

theorem owners_of_none (t : TargetSet) : d.owners t = t.classes := by rw [owners, hnone]

theorem remapDesc_of_untargeted (h : Assembles mode node d) (htargets : t.classes = []) :
    r.remapDesc location t mode node = .stop node (.illegal location .descWithoutOwner) :=
  remapDesc_of_fault h.read (newName_of_no_owners ((owners_of_none hnone t).trans htargets))

theorem remapDesc_of_torn (h : Assembles mode node d) {c c' : String} (hc : c ∈ t.classes)
    (hc' : c' ∈ t.classes) (hne : d.nameIn r.naming mode c ≠ d.nameIn r.naming mode c') :
    ∃ first second, first ≠ second ∧ r.remapDesc location t mode node =
      .stop node (.illegal location (.tornDesc first second d.name d.desc)) := by
  rw [← owners_of_none hnone t] at hc hc'
  obtain ⟨first, -, second, -, hdiffers, hname⟩ := newName_of_torn hc hc' hne
  exact ⟨_, _, hdiffers.symm, remapDesc_of_fault h.read hname⟩

theorem remapDesc_of_unanimous (himages : r.naming.LegalImages) (h : Assembles mode node d)
    {name : String} (hall : d.Unanimous r.naming mode t.classes name) :
    ∃ edited, RestatedBy mode node d r.naming name edited ∧
      r.remapDesc location t mode node = .keep edited := by
  rw [← owners_of_none hnone t] at hall
  exact remapDesc_of_name himages h (newName_of_unanimous hall)

/-- The run goes through exactly if there is a target and no two targets disagree. -/
theorem remapDesc_completes_iff (himages : r.naming.LegalImages) (h : Assembles mode node d) :
    (r.remapDesc location t mode node).fault = none ↔
      ∃ name, d.Unanimous r.naming mode t.classes name := by
  constructor
  · intro hfault
    cases htargets : t.classes with
    | nil =>
      rw [remapDesc_of_untargeted hnone h htargets] at hfault
      cases hfault
    | cons c rest =>
      have hc : c ∈ t.classes := htargets ▸ List.mem_cons_self
      refine ⟨d.nameIn r.naming mode c, List.cons_ne_nil c rest, fun c' hc' => ?_⟩
      rw [← htargets] at hc'
      by_contra hne
      obtain ⟨first, second, -, hstop⟩ := remapDesc_of_torn hnone h hc' hc hne
      rw [hstop] at hfault
      cases hfault
  · rintro ⟨name, hall⟩
    obtain ⟨edited, -, hrun⟩ := remapDesc_of_unanimous hnone himages h hall
    rw [hrun]
    rfl

end Ownerless

theorem remapDesc_of_owner (himages : r.naming.LegalImages) (h : Assembles mode node d)
    {owner : String} (howner : d.owner = some owner) : ∃ edited,
    RestatedBy mode node d r.naming (d.nameIn r.naming mode owner) edited ∧
      ∀ t, r.remapDesc location t mode node = .keep edited := by
  have hname : ∀ t, d.newName r location mode t = .answer (d.nameIn r.naming mode owner) :=
    fun t => newName_of_owner howner
  obtain ⟨edited, hrestated, hrun⟩ := remapDesc_of_name himages h (hname .empty)
  refine ⟨edited, hrestated, fun t => ?_⟩
  rw [← hrun, remapDesc_of_read h.read, remapDesc_of_read h.read, hname t, hname .empty]

end Remapper

/-- An owner that a @Desc states speaks for its name; otherwise there have to be targets, and they
have to agree. -/
theorem desc_name_is_settled (r : Remapper) (location : String) (mode : DescMode)
    (node : Annotation) (d : DescReference) (himages : r.naming.LegalImages)
    (hnode : Assembles mode node d) : r.SettlesName location mode node d where
  owned _ howner := Remapper.remapDesc_of_owner himages hnode howner
  agreed hnone _ _ hall := Remapper.remapDesc_of_unanimous hnone himages hnode hall
  untargeted hnone _ htargets := Remapper.remapDesc_of_untargeted hnone hnode htargets
  torn hnone _ _ hc _ hc' hne := Remapper.remapDesc_of_torn hnone hnode hc hc' hne
  completes hnone _ := Remapper.remapDesc_completes_iff hnone himages hnode

/-- Two targets call the member differently: each of them alone would settle its name. -/
theorem desc_torn_between_targets :
    let table := ((MappingTable.empty.withClass "a/T" "b/U").withMember
      ⟨⟨"a/T", "run", "([La/T;)V"⟩, "r"⟩).withMember ⟨⟨"a/S", "run", "([La/T;)V"⟩, "s"⟩
    let r : Remapper := ⟨table.naming, .empty, .lenient⟩
    let node : Annotation := ⟨Vocabulary.descType,
      [("value", .string "run"), ("args", .array [.type ⟨"[La/T;"⟩])]⟩
    (∃ edited, r.remapDesc "" (.single "a/T") .method node = .keep edited ∧
      edited.get? "value" = some (.string "r")) ∧
    ∃ first second, first ≠ second ∧ r.remapDesc "" (.ofList ["a/T", "a/S"]) .method node =
      .stop node (.illegal "" (.tornDesc first second "run" "([La/T;)V")) := by
  intro table r node
  have himages : r.naming.LegalImages :=
    Naming.legalImages_empty.withClass "a/T" (legalClassName_iff.2 (by decide +kernel))
  have hnode : Assembles .method node ⟨"run", none, none, "([La/T;)V"⟩ :=
    { desc := rfl, name := rfl, owner := rfl, named := nofun, result := rfl,
      types := ⟨["[La/T;"], rfl, by decide +kernel⟩, known := by decide,
      valid := by decide +kernel, typed := nofun, field := nofun }
  have hsettles := desc_name_is_settled r "" .method node _ himages hnode
  constructor
  · obtain ⟨edited, ⟨⟨desc, result, -, hstates⟩, -⟩, hrun⟩ :=
      hsettles.agreed rfl (.single "a/T") "r"
        ⟨nofun, List.forall_mem_singleton.2 (by decide +kernel)⟩
    exact ⟨edited, hrun, hstates.name⟩
  · exact hsettles.torn rfl (.ofList ["a/T", "a/S"]) "a/T" (by decide +kernel) "a/S"
      (by decide +kernel) (by decide +kernel)

end MixinNaming
