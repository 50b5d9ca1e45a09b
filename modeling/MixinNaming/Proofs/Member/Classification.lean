import MixinNaming.Proofs.Frame.Members
/-! All annotations of a member are looked at before the rules of any of them run. What is found on
the way are gaps, in the order of the annotations. Two annotations that govern the member end the
walk; a single one is kept in mind, wherever it stands. -/
namespace MixinNaming

variable {α : Type}

def Attempt.precededBy (x : Attempt α) (events : List Event) : Attempt α :=
  ⟨events ++ x.events, x.result⟩

theorem Attempt.precededBy_precededBy (x : Attempt α) (front events : List Event) :
    (x.precededBy events).precededBy front = x.precededBy (front ++ events) := by
  simp [precededBy]

namespace AnnotationKind

def appliesTo (kind : AnnotationKind) (member : MemberRef) : Bool :=
  member.isMethod || kind.appliesToFields

theorem ofDescriptor?_eq_some {desc : String} {kind : AnnotationKind} :
    ofDescriptor? desc = some kind ↔ kind.descriptor = desc := by
  constructor
  · intro h
    simpa using List.find?_some h
  · rintro rfl
    exact ofDescriptor?_descriptor kind

theorem ofMember?_eq_some {member : MemberRef} {desc : String} {kind : AnnotationKind} :
    ofMember? member desc = some kind ↔ kind.descriptor = desc ∧ kind.appliesTo member = true := by
  rw [ofMember?, Option.filter_eq_some_iff, ofDescriptor?_eq_some]
  rfl

theorem isMemberNamespace_descriptor (kind : AnnotationKind) :
    Vocabulary.isMemberNamespace kind.descriptor = true := by
  cases kind with
  | injector kind => cases kind <;> decide +kernel
  | _ => decide +kernel

end AnnotationKind

section Lists

variable (member : MemberRef) (annotations : List Annotation)

def governs (a : Annotation) : Bool :=
  AnnotationKind.all.any fun kind =>
    kind.descriptor == a.desc && kind.isMain && kind.appliesTo member

/-- Whether the annotation stands in a mixin namespace and is of no kind that the member may
carry. -/
def isStray (a : Annotation) : Bool :=
  Vocabulary.isMemberNamespace a.desc &&
    !AnnotationKind.all.any fun kind => kind.descriptor == a.desc && kind.appliesTo member

def mains : List Annotation := annotations.filter (governs member)

def strayGap (a : Annotation) : Gap := ⟨"", .unknownOnMember member a.desc⟩

def strayGaps : List Gap := (annotations.filter (isStray member)).map (strayGap member)

variable {member annotations} {a : Annotation}

theorem governing?_eq_some {desc : String} {kind : AnnotationKind} :
    governing? member desc = some kind ↔
      kind.descriptor = desc ∧ kind.isMain = true ∧ kind.appliesTo member = true := by
  rw [governing?]
  constructor
  · intro h
    obtain ⟨-, h⟩ := Option.ite_none_right_eq_some.1 h
    obtain ⟨h, hmain⟩ := Option.filter_eq_some_iff.1 h
    obtain ⟨hdesc, happlies⟩ := AnnotationKind.ofMember?_eq_some.1 h
    exact ⟨hdesc, hmain, happlies⟩
  · rintro ⟨rfl, hmain, happlies⟩
    rw [if_pos kind.isMemberNamespace_descriptor]
    exact Option.filter_eq_some_iff.2 ⟨AnnotationKind.ofMember?_eq_some.2 ⟨rfl, happlies⟩, hmain⟩

theorem governs_eq_true :
    governs member a = true ↔ ∃ kind, governing? member a.desc = some kind := by
  simp only [governs, List.any_eq_true, AnnotationKind.mem_all, true_and, Bool.and_eq_true,
    beq_iff_eq, governing?_eq_some, and_assoc]

theorem isStray_eq_true : isStray member a = true ↔
    Vocabulary.isMemberNamespace a.desc = true ∧ AnnotationKind.ofMember? member a.desc = none := by
  simp only [isStray, Bool.and_eq_true, Bool.not_eq_true', List.any_eq_false,
    AnnotationKind.mem_all, forall_const, beq_iff_eq, Option.eq_none_iff_forall_ne_some, ne_eq,
    AnnotationKind.ofMember?_eq_some]

/-- On a field the annotation of a handler is stray, and a marker is not. -/
example :
    let field : MemberRef := ⟨"a/M", "count", "I"⟩
    isStray field ⟨Vocabulary.inject, []⟩ = true ∧ isStray field ⟨Vocabulary.final, []⟩ = false ∧
      governs field ⟨Vocabulary.final, []⟩ = false ∧
      governs field ⟨Vocabulary.shadow, []⟩ = true := by
  decide +kernel

theorem strayGaps_append (front rest : List Annotation) :
    strayGaps member (front ++ rest) = strayGaps member front ++ strayGaps member rest := by
  simp [strayGaps]

theorem strayGaps_cons_of_stray (h : isStray member a = true) (rest : List Annotation) :
    strayGaps member (a :: rest) = strayGap member a :: strayGaps member rest := by
  simp [strayGaps, h]

theorem strayGaps_cons_of_not_stray (h : isStray member a = false) (rest : List Annotation) :
    strayGaps member (a :: rest) = strayGaps member rest := by
  simp [strayGaps, h]

theorem not_stray_of_governing? {kind : AnnotationKind}
    (h : governing? member a.desc = some kind) : isStray member a = false := by
  obtain ⟨hdesc, -, happlies⟩ := governing?_eq_some.1 h
  rw [Bool.eq_false_iff, ne_eq, isStray_eq_true]
  rintro ⟨-, hnone⟩
  cases hnone.symm.trans (AnnotationKind.ofMember?_eq_some.2 ⟨hdesc, happlies⟩)

theorem governs_of_mains_nil (h : mains member annotations = []) :
    ∀ a ∈ annotations, governs member a = false := by
  intro a ha
  rw [Bool.eq_false_iff]
  exact List.filter_eq_nil_iff.1 h a ha

/-- The first governing annotation, and what stands before and after it. -/
theorem exists_of_mains_cons {more : List Annotation} (h : mains member annotations = a :: more) :
    ∃ before after kind, annotations = before ++ a :: after ∧
      governing? member a.desc = some kind ∧ (∀ x ∈ before, governs member x = false) ∧
      mains member after = more := by
  obtain ⟨before, after, rfl, hbefore, ha, hafter⟩ := List.filter_eq_cons_iff.1 h
  obtain ⟨kind, hkind⟩ := governs_eq_true.1 ha
  exact ⟨before, after, kind, rfl, hkind, fun x hx => Bool.eq_false_iff.2 (hbefore x hx), hafter⟩

theorem strayGaps_main {kind : AnnotationKind} (h : governing? member a.desc = some kind)
    (before after : List Annotation) : strayGaps member (before ++ a :: after) =
      strayGaps member before ++ strayGaps member after := by
  rw [strayGaps_append, strayGaps_cons_of_not_stray (not_stray_of_governing? h)]

/-- The annotation that a gap is about, and what stands before and after it. -/
theorem exists_of_strayGaps {passed later : List Gap} {g : Gap}
    (h : strayGaps member annotations = passed ++ g :: later) :
    ∃ front a rest, annotations = front ++ a :: rest ∧ strayGaps member front = passed ∧
      isStray member a = true ∧ strayGap member a = g := by
  obtain ⟨some, others, hfilter, rfl, hmap⟩ := List.map_eq_append_iff.1 h
  obtain ⟨a, more, rfl, rfl, -⟩ := List.map_eq_cons_iff.1 hmap
  obtain ⟨front, back, rfl, rfl, hback⟩ := List.filter_eq_append_iff.1 hfilter
  obtain ⟨idle, rest, rfl, hidle, ha, -⟩ := List.filter_eq_cons_iff.1 hback
  refine ⟨front ++ idle, a, rest, (List.append_assoc _ _ _).symm, ?_, ha, rfl⟩
  have hnone : idle.filter (isStray member) = [] := List.filter_eq_nil_iff.2 hidle
  rw [strayGaps, List.filter_append, hnone, List.append_nil]

end Lists

namespace Remapper

variable {r : Remapper} {member : MemberRef} {index : Nat} {main : Option Governing}
  {a : Annotation} {front rest : List Annotation}

section Steps

theorem classifyFrom_stray (h : isStray member a = true) :
    r.classifyFrom member index main (a :: rest) =
      (r.report "" (.unknownOnMember member a.desc)).bind fun _ =>
        r.classifyFrom member (index + 1) main rest := by
  obtain ⟨hnamespace, hnone⟩ := isStray_eq_true.1 h
  rw [classifyFrom, hnamespace, hnone]
  rfl

/-- An annotation that neither governs the member nor is stray is passed over. -/
theorem classifyFrom_other (hstray : isStray member a = false)
    (hgoverns : governs member a = false) :
    r.classifyFrom member index main (a :: rest) =
      r.classifyFrom member (index + 1) main rest := by
  rw [classifyFrom]
  by_cases hnamespace : Vocabulary.isMemberNamespace a.desc = true
  · rw [hnamespace]
    cases hkind : AnnotationKind.ofMember? member a.desc with
    | none =>
      have htrue := isStray_eq_true.2 ⟨hnamespace, hkind⟩
      rw [hstray] at htrue
      cases htrue
    | some kind =>
      have hmarker : kind.isMarker = true := by
        by_contra hmain
        obtain ⟨hdesc, happlies⟩ := AnnotationKind.ofMember?_eq_some.1 hkind
        have htrue : governs member a = true := governs_eq_true.2
          ⟨kind, governing?_eq_some.2 ⟨hdesc, by simp [AnnotationKind.isMain, hmain], happlies⟩⟩
        rw [hgoverns] at htrue
        cases htrue
      simp [hmarker]
  · simp [hnamespace]

theorem classifyFrom_governs {kind : AnnotationKind} (h : governing? member a.desc = some kind) :
    r.classifyFrom member index main (a :: rest) =
      match main with
      | none => r.classifyFrom member (index + 1) (some ⟨index, kind⟩) rest
      | some first =>
        .stop (.illegal "" (.conflictingAnnotations member first.kind.descriptor a.desc)) := by
  obtain ⟨hdesc, hmain, happlies⟩ := governing?_eq_some.1 h
  have hnamespace := kind.isMemberNamespace_descriptor
  rw [hdesc] at hnamespace
  have hmarker : kind.isMarker = false := by simpa [AnnotationKind.isMain] using hmain
  rw [classifyFrom, hnamespace, AnnotationKind.ofMember?_eq_some.2 ⟨hdesc, happlies⟩]
  cases main with
  | none => simp [hmarker]
  | some first => simp [hmarker]

end Steps

section Walk

def PassesStrays (r : Remapper) (member : MemberRef) (annotations : List Annotation) : Prop :=
  ∀ g ∈ strayGaps member annotations, r.policy.refusal g = none

theorem passesStrays_main {kind : AnnotationKind} (h : governing? member a.desc = some kind) :
    r.PassesStrays member (front ++ a :: rest) ↔
      r.PassesStrays member front ∧ r.PassesStrays member rest := by
  rw [PassesStrays, strayGaps_main h, List.forall_mem_append]
  exact Iff.rfl

/-- Annotations that do not govern the member leave nothing behind but their gaps. -/
theorem classifyFrom_front (hfront : ∀ a ∈ front, governs member a = false)
    (hpasses : r.PassesStrays member front) (rest : List Annotation) :
    r.classifyFrom member index main (front ++ rest) =
      (r.classifyFrom member (index + front.length) main rest).precededBy
        ((strayGaps member front).map .gap) := by
  induction front generalizing index with
  | nil => rfl
  | cons a more ih =>
    obtain ⟨ha, hmore⟩ := List.forall_mem_cons.1 hfront
    have hindex : index + (a :: more).length = index + 1 + more.length := by
      rw [List.length_cons]
      omega
    rw [List.cons_append, hindex]
    cases hstray : isStray member a with
    | true =>
      rw [PassesStrays, strayGaps_cons_of_stray hstray, List.forall_mem_cons] at hpasses
      rw [classifyFrom_stray hstray, report_of_passed hpasses.1, ih hmore hpasses.2,
        strayGaps_cons_of_stray hstray]
      rfl
    | false =>
      rw [PassesStrays, strayGaps_cons_of_not_stray hstray] at hpasses
      rw [classifyFrom_other hstray ha, ih hmore hpasses, strayGaps_cons_of_not_stray hstray]

/-- The one governing annotation of a list is kept in mind while the others are looked at. -/
theorem classifyFrom_main {kind : AnnotationKind} (hfront : ∀ a ∈ front, governs member a = false)
    (ha : governing? member a.desc = some kind) (hpasses : r.PassesStrays member front)
    (rest : List Annotation) :
    r.classifyFrom member index none (front ++ a :: rest) =
      (r.classifyFrom member (index + front.length + 1) (some ⟨index + front.length, kind⟩)
        rest).precededBy ((strayGaps member front).map .gap) := by
  rw [classifyFrom_front hfront hpasses, classifyFrom_governs ha]

/-- A front part with one governing annotation at most leaves behind its gaps, and perhaps that
annotation. -/
theorem classifyFrom_front_of_mains (hfront : (mains member front).length ≤ 1)
    (hpasses : r.PassesStrays member front) :
    ∃ index main, ∀ rest, r.classifyFrom member 0 none (front ++ rest) =
      (r.classifyFrom member index main rest).precededBy ((strayGaps member front).map .gap) := by
  cases hmains : mains member front with
  | nil => exact ⟨_, none, classifyFrom_front (governs_of_mains_nil hmains) hpasses⟩
  | cons a more =>
    rw [hmains, List.length_cons] at hfront
    obtain rfl : more = [] := List.eq_nil_of_length_eq_zero (by omega)
    obtain ⟨before, after, kind, rfl, hkind, hbefore, hafter⟩ := exists_of_mains_cons hmains
    have hgaps : strayGaps member (before ++ a :: after) =
        strayGaps member before ++ strayGaps member after := strayGaps_main hkind before after
    obtain ⟨hpassesBefore, hpassesAfter⟩ := (passesStrays_main hkind).1 hpasses
    refine ⟨0 + before.length + 1 + after.length, some ⟨0 + before.length, kind⟩, fun rest => ?_⟩
    rw [List.append_assoc, List.cons_append, classifyFrom_main hbefore hkind hpassesBefore,
      classifyFrom_front (governs_of_mains_nil hafter) hpassesAfter, Attempt.precededBy_precededBy,
      hgaps, List.map_append]

end Walk

section Classify

variable {annotations : List Annotation} {a b : Annotation} {more : List Annotation}

/-- Whatever the policy says, a classification does nothing but report stray annotations. -/
theorem classifyFrom_events (r : Remapper) (member : MemberRef) (index : Nat)
    (main : Option Governing) (annotations : List Annotation) :
    ∃ passed, passed <+: strayGaps member annotations ∧
      (r.classifyFrom member index main annotations).events = passed.map .gap := by
  induction annotations generalizing index main with
  | nil => exact ⟨[], List.nil_prefix, rfl⟩
  | cons a rest ih =>
    cases hstray : isStray member a with
    | true =>
      rw [classifyFrom_stray hstray, strayGaps_cons_of_stray hstray]
      cases hrefusal : r.policy.refusal (strayGap member a) with
      | none =>
        obtain ⟨passed, hprefix, hevents⟩ := ih (index + 1) main
        refine ⟨strayGap member a :: passed, List.cons_prefix_cons.2 ⟨rfl, hprefix⟩, ?_⟩
        rw [report_of_passed hrefusal, List.map_cons, ← hevents]
        rfl
      | some f =>
        refine ⟨[strayGap member a], List.cons_prefix_cons.2 ⟨rfl, List.nil_prefix⟩, ?_⟩
        rw [report_of_refused hrefusal]
        rfl
    | false =>
      rw [strayGaps_cons_of_not_stray hstray]
      cases hgoverns : governs member a with
      | false =>
        rw [classifyFrom_other hstray hgoverns]
        exact ih (index + 1) main
      | true =>
        obtain ⟨kind, hkind⟩ := governs_eq_true.1 hgoverns
        rw [classifyFrom_governs hkind]
        cases main with
        | none => exact ih (index + 1) (some ⟨index, kind⟩)
        | some first => exact ⟨[], List.nil_prefix, rfl⟩

theorem classify_of_mains_nil (h : mains member annotations = [])
    (hpasses : r.PassesStrays member annotations) :
    r.classify member annotations =
      (Attempt.answer none).precededBy ((strayGaps member annotations).map .gap) := by
  have hclassify : r.classifyFrom member 0 none (annotations ++ []) = _ :=
    classifyFrom_front (governs_of_mains_nil h) hpasses []
  rw [List.append_nil] at hclassify
  exact hclassify

theorem classify_of_governed {before after : List Annotation} {kind : AnnotationKind}
    (hbefore : ∀ x ∈ before, governs member x = false) (ha : governing? member a.desc = some kind)
    (hafter : mains member after = []) (hpasses : r.PassesStrays member (before ++ a :: after)) :
    r.classify member (before ++ a :: after) =
      (Attempt.answer (some ⟨before.length, kind⟩)).precededBy
        ((strayGaps member (before ++ a :: after)).map .gap) := by
  obtain ⟨hpassesBefore, hpassesAfter⟩ := (passesStrays_main ha).1 hpasses
  have hlast : r.classifyFrom member (0 + before.length + 1) (some ⟨0 + before.length, kind⟩)
      (after ++ []) = _ :=
    classifyFrom_front (governs_of_mains_nil hafter) hpassesAfter []
  rw [List.append_nil] at hlast
  rw [classify, classifyFrom_main hbefore ha hpassesBefore, hlast, Attempt.precededBy_precededBy,
    strayGaps_main ha, List.map_append, Nat.zero_add]
  rfl

/-- Two governing annotations are never both accepted. -/
theorem exists_fault_of_conflict (r : Remapper) (h : mains member annotations = a :: b :: more) :
    ∃ f, (r.classify member annotations).result = .error f := by
  cases hresult : (r.classify member annotations).result with
  | error f => exact ⟨f, rfl⟩
  | ok found =>
    exfalso
    have hnone : ∀ {l}, (∀ x ∈ l, governing? member x.desc = none) → mains member l = [] := by
      intro l hl
      refine List.filter_eq_nil_iff.2 fun x hx htrue => ?_
      obtain ⟨kind, hkind⟩ := governs_eq_true.1 htrue
      cases (hl x hx).symm.trans hkind
    rcases classifyFrom_eq_ok hresult with ⟨-, hall⟩ |
      ⟨-, before, x, after, kind, rfl, hx, -, hothers⟩
    · cases h.symm.trans (hnone hall)
    · have hgoverns : governs member x = true := governs_eq_true.2 ⟨kind, hx⟩
      obtain ⟨hbefore, hafter⟩ := List.forall_mem_append.1 hothers
      have hone : mains member (before ++ x :: after) = [x] := by
        rw [mains, List.filter_append, List.filter_cons_of_pos hgoverns]
        exact congrArg₂ (· ++ x :: ·) (hnone hbefore) (hnone hafter)
      cases h.symm.trans hone

/-- The first two governing annotations are named. -/
theorem fault_of_conflict (h : mains member annotations = a :: b :: more)
    (hpasses : r.PassesStrays member annotations) :
    (r.classify member annotations).result =
      .error (.illegal "" (.conflictingAnnotations member a.desc b.desc)) := by
  -- the list is cut at the first governing annotation, and what follows at the second
  obtain ⟨before, after, kind, rfl, hkind, hbefore, hafter⟩ := exists_of_mains_cons h
  obtain ⟨between, last, other, rfl, hother, hbetween, -⟩ := exists_of_mains_cons hafter
  obtain ⟨hpassesBefore, hpassesAfter⟩ := (passesStrays_main hkind).1 hpasses
  obtain ⟨hpassesBetween, -⟩ := (passesStrays_main hother).1 hpassesAfter
  rw [classify, classifyFrom_main hbefore hkind hpassesBefore,
    classifyFrom_front hbetween hpassesBetween, classifyFrom_governs hother,
    ← descriptor_of_governing? hkind]
  rfl

/-- With one governing annotation at most, the first stray annotation that is not passed over ends
the classification. -/
theorem classify_of_refused {passed later : List Gap} {g : Gap} {f : Fault}
    (hmains : (mains member annotations).length ≤ 1)
    (hgaps : strayGaps member annotations = passed ++ g :: later)
    (hpassed : ∀ x ∈ passed, r.policy.refusal x = none) (hg : r.policy.refusal g = some f) :
    r.classify member annotations = ⟨(passed ++ [g]).map .gap, .error f⟩ := by
  obtain ⟨front, a, rest, rfl, rfl, ha, rfl⟩ := exists_of_strayGaps hgaps
  have hfront : (mains member front).length ≤ 1 := by
    rw [mains, List.filter_append, List.length_append] at hmains
    exact Nat.le_trans (Nat.le_add_right _ _) hmains
  obtain ⟨index, main, hclassify⟩ := classifyFrom_front_of_mains hfront hpassed
  rw [classify, hclassify, classifyFrom_stray ha, report_of_refused hg, List.map_append]
  rfl

end Classify

end Remapper

end MixinNaming
