import Mathlib.Algebra.Order.BigOperators.Group.List
import Mathlib.Algebra.Order.Ring.Nat
import MixinNaming.Proofs.Hierarchy.Reachability
/-! The search for a member, turn by turn. A turn may take any class that waits, so what is shown
here does not hang on the order in which a search takes them. Every turn uses up a waiting class or
the edges of a class that has not been seen, so a search is over after as many turns as there are
edges and one more; what it has found by then is what can be reached. -/
namespace MixinNaming.Hierarchy

variable {h k : Hierarchy} {c d name desc : String}

/-- How far a search has come: the classes that it has been through and the classes that wait, some
of them perhaps more than once. -/
structure Frontier where
  seen : List String
  waiting : List String
  deriving DecidableEq, Repr

def start (c : String) : Frontier := ⟨[], [c]⟩

/-- One turn of a search. It may take any waiting class, and the supertypes of a class may come to
wait in any order. -/
inductive Turn (h : Hierarchy) (name desc : String) : Frontier → Frontier → Prop where
  | drop (seen before after c) (hc : c ∈ seen ∨ h.get? c = none) :
      Turn h name desc ⟨seen, before ++ c :: after⟩ ⟨seen, before ++ after⟩
  | visit (seen before after waiting c info) (hseen : c ∉ seen) (hc : h.get? c = some info)
      (hnot : info.declares name desc = false)
      (hwaiting : waiting.Perm (info.supertypes ++ (before ++ after))) :
      Turn h name desc ⟨seen, before ++ c :: after⟩ ⟨c :: seen, waiting⟩

inductive Turns (h : Hierarchy) (name desc : String) : Nat → Frontier → Frontier → Prop where
  | nil (f) : Turns h name desc 0 f f
  | cons {n f g e} : Turn h name desc f g → Turns h name desc n g e → Turns h name desc (n + 1) f e

def Frontier.Finds (h : Hierarchy) (name desc : String) (f : Frontier) : Prop :=
  ∃ c ∈ f.waiting, c ∉ f.seen ∧ ∃ info, h.get? c = some info ∧ info.declares name desc = true

def Owns (h : Hierarchy) (name desc c : String) : Prop :=
  ∃ info, h.get? c = some info ∧ ⟨name, desc⟩ ∈ info.members

theorem declares_info_iff {info : ClassInfo} :
    info.declares name desc = true ↔ ⟨name, desc⟩ ∈ info.members := by
  simp [ClassInfo.declares]

theorem provides_iff_owns : h.Provides name desc c ↔ ∃ d, h.Reaches c d ∧ h.Owns name desc d := by
  constructor
  · rintro ⟨d, info, hr, hd, hdeclares⟩
    exact ⟨d, hr, info, hd, declares_info_iff.1 hdeclares⟩
  · rintro ⟨d, hr, info, hd, hmem⟩
    exact ⟨d, info, hr, hd, declares_info_iff.2 hmem⟩

section Potential

def openAt (seen : List String) (entry : String × ClassInfo) : Nat :=
  if entry.1 ∈ seen then 0 else entry.2.supertypes.length

def openEdges (h : Hierarchy) (seen : List String) : Nat :=
  (h.classes.entries.map (openAt seen)).sum

def edges (h : Hierarchy) : Nat := h.openEdges []

/-- What bounds the turns that are left. -/
def Frontier.potential (h : Hierarchy) (f : Frontier) : Nat :=
  f.waiting.length + h.openEdges f.seen

theorem openAt_cons_le (c : String) (seen : List String) (entry : String × ClassInfo) :
    openAt (c :: seen) entry ≤ openAt seen entry := by
  by_cases hmem : entry.1 ∈ seen
  · simp [openAt, hmem]
  · rw [openAt, openAt, if_neg hmem]
    split <;> omega

theorem openEdges_visit {seen : List String} {info : ClassInfo} (hc : h.get? c = some info)
    (hseen : c ∉ seen) :
    h.openEdges (c :: seen) + info.supertypes.length ≤ h.openEdges seen := by
  obtain ⟨before, after, hentries⟩ := List.append_of_mem (Table.mem_of_get? hc)
  have hbefore := List.sum_le_sum fun e (_ : e ∈ before) => openAt_cons_le c seen e
  have hafter := List.sum_le_sum fun e (_ : e ∈ after) => openAt_cons_le c seen e
  have hnow : openAt (c :: seen) (c, info) = 0 := by simp [openAt]
  have hthen : openAt seen (c, info) = info.supertypes.length := by simp [openAt, hseen]
  rw [openEdges, openEdges, hentries]
  simp only [List.map_append, List.map_cons, List.sum_append, List.sum_cons, hnow, hthen]
  omega

/-- A turn uses up at least one waiting class or one edge. -/
theorem Turn.potential_lt {f g : Frontier} (hturn : Turn h name desc f g) :
    g.potential h < f.potential h := by
  cases hturn with
  | drop seen before after c hc =>
    simp only [Frontier.potential, List.length_append, List.length_cons]
    omega
  | visit seen before after waiting c info hseen hc hnot hwaiting =>
    have hlength := hwaiting.length_eq
    have hopen := openEdges_visit hc hseen
    simp only [List.length_append] at hlength
    simp only [Frontier.potential, List.length_append, List.length_cons]
    omega

theorem Turns.bounded {n : Nat} {f g : Frontier} (hturns : Turns h name desc n f g) :
    n + g.potential h ≤ f.potential h := by
  induction hturns with
  | nil f => omega
  | cons hturn _ ih =>
    have := hturn.potential_lt
    omega

end Potential

section Answer

theorem Exhausted.of_subset {seen waiting others : List String}
    (hseen : h.Exhausted name desc seen waiting) (hsub : ∀ s ∈ waiting, s ∈ others) :
    h.Exhausted name desc seen others := by
  intro c hc
  obtain ⟨info, hinfo, hnot, hsupertypes⟩ := hseen c hc
  exact ⟨info, hinfo, hnot, fun s hs => (hsupertypes s hs).imp_right (·.imp_left (hsub s))⟩

/-- What a search keeps: it has missed nothing so far, and what it looks for is above a waiting
class exactly if it is above the class where the search began. -/
structure Searching (h : Hierarchy) (name desc c : String) (f : Frontier) : Prop where
  exhausted : h.Exhausted name desc f.seen f.waiting
  waits : (∃ w ∈ f.waiting, h.Provides name desc w) ↔ h.Provides name desc c

theorem searching_start (h : Hierarchy) (name desc c : String) :
    h.Searching name desc c (start c) where
  exhausted x hx := by cases hx
  waits := by simp [start]

theorem Searching.turn {f g : Frontier} (hf : h.Searching name desc c f)
    (hturn : Turn h name desc f g) : h.Searching name desc c g := by
  obtain ⟨hexhausted, hwaits⟩ := hf
  -- both kinds of turn take one class out of the middle, so it is brought to the front first
  cases hturn with
  | drop seen before after x hx =>
    have hfront : h.Exhausted name desc seen (x :: (before ++ after)) :=
      hexhausted.of_subset fun s hs => List.perm_middle.mem_iff.1 hs
    have hrest := hfront.drop hx
    refine ⟨hrest, Iff.trans ?_ hwaits⟩
    simp only [List.perm_middle.mem_iff, List.mem_cons, exists_eq_or_imp]
    refine ⟨.inr, fun hfound => hfound.elim (fun hp => ?_) id⟩
    rcases hx with hseen | hunknown
    · exact hrest.provides hseen hp
    · exact absurd hp (not_provides_of_unknown hunknown)
  | visit seen before after waiting x info hseen hx hnot hwaiting =>
    have hfront : h.Exhausted name desc seen (x :: (before ++ after)) :=
      hexhausted.of_subset fun s hs => List.perm_middle.mem_iff.1 hs
    refine ⟨(hfront.visit hx hnot).of_subset fun s hs => hwaiting.mem_iff.2 hs, ?_⟩
    have habove : h.Provides name desc x ↔ ∃ s ∈ info.supertypes, h.Provides name desc s := by
      rw [provides_iff_of_known hx, hnot]
      simp only [Bool.false_eq_true, false_or]
    refine Iff.trans ?_ hwaits
    simp only [hwaiting.mem_iff, List.perm_middle.mem_iff, List.mem_append, List.mem_cons,
      or_and_right, exists_or, exists_eq_left, habove]

theorem Searching.turns {n : Nat} {f g : Frontier} (hf : h.Searching name desc c f)
    (hturns : Turns h name desc n f g) : h.Searching name desc c g := by
  induction hturns with
  | nil f => exact hf
  | cons hturn _ ih => exact ih (hf.turn hturn)

theorem Searching.provides_of_finds {f : Frontier} (hf : h.Searching name desc c f)
    (hfinds : f.Finds h name desc) : h.Provides name desc c := by
  obtain ⟨x, hx, -, info, hinfo, hdeclares⟩ := hfinds
  exact hf.waits.1 ⟨x, hx, x, info, .refl, hinfo, hdeclares⟩

theorem Searching.not_provides_of_nil {f : Frontier} (hf : h.Searching name desc c f)
    (hnil : f.waiting = []) : ¬h.Provides name desc c := by
  intro hp
  obtain ⟨w, hw, -⟩ := hf.waits.2 hp
  rw [hnil] at hw
  cases hw

/-- As long as a class waits, a search has found the member or takes another turn. -/
theorem finds_or_turns {f : Frontier} (hwaits : f.waiting ≠ []) :
    f.Finds h name desc ∨ ∃ g, Turn h name desc f g := by
  obtain ⟨seen, waiting⟩ := f
  obtain ⟨x, rest, rfl⟩ := List.exists_cons_of_ne_nil hwaits
  by_cases hseen : x ∈ seen
  · exact .inr ⟨_, .drop seen [] rest x (.inl hseen)⟩
  · cases hx : h.get? x with
    | none => exact .inr ⟨_, .drop seen [] rest x (.inr hx)⟩
    | some info =>
      cases hdeclares : info.declares name desc with
      | true => exact .inl ⟨x, List.mem_cons_self, hseen, info, hx, hdeclares⟩
      | false => exact .inr ⟨_, .visit seen [] rest _ x info hseen hx hdeclares (.refl _)⟩

/-- The search itself takes turns until it has found the member or nothing waits any more. -/
theorem search_turns (h : Hierarchy) (name desc : String) (seen waiting : List String) :
    ∃ n f, Turns h name desc n ⟨seen, waiting⟩ f ∧
      if h.search name desc seen waiting then f.Finds h name desc else f.waiting = [] := by
  fun_induction h.search name desc seen waiting with
  | case1 seen => exact ⟨0, _, .nil _, rfl⟩
  | case2 seen c rest hc ih =>
    obtain ⟨n, f, hturns, hends⟩ := ih
    exact ⟨n + 1, f, .cons (.drop seen [] rest c (.inl hc)) hturns, hends⟩
  | case3 seen c rest hc hunknown ih =>
    obtain ⟨n, f, hturns, hends⟩ := ih
    exact ⟨n + 1, f, .cons (.drop seen [] rest c (.inr hunknown)) hturns, hends⟩
  | case4 seen c rest hc info hinfo ih =>
    cases hdeclares : info.declares name desc with
    | true => exact ⟨0, _, .nil _, c, List.mem_cons_self, hc, info, hinfo, hdeclares⟩
    | false =>
      obtain ⟨n, f, hturns, hends⟩ := ih
      exact ⟨n + 1, f, .cons (.visit seen [] rest _ c info hc hinfo hdeclares (.refl _)) hturns,
        hends⟩

end Answer

structure DecidesReachability (h : Hierarchy) : Prop where
  exact : ∀ c name desc,
    h.declares c name desc = true ↔ ∃ d, h.Reaches c d ∧ h.Owns name desc d
  bounded : ∀ c name desc n f, Turns h name desc n (start c) f → n ≤ h.edges + 1
  unblocked : ∀ name desc f, f.waiting ≠ [] → f.Finds h name desc ∨ ∃ g, Turn h name desc f g
  settled : ∀ c name desc n f, Turns h name desc n (start c) f →
    (f.Finds h name desc → h.declares c name desc = true) ∧
      (f.waiting = [] → h.declares c name desc = false)
  completes : ∀ c name desc, ∃ n f, n ≤ h.edges + 1 ∧ Turns h name desc n (start c) f ∧
    if h.declares c name desc then f.Finds h name desc else f.waiting = []
  determined : ∀ k : Hierarchy, (∀ c d, k.Edge c d ↔ h.Edge c d) →
    (∀ name desc c, k.Owns name desc c ↔ h.Owns name desc c) →
    ∀ c name desc, k.declares c name desc = h.declares c name desc
  unreached : ∀ c d info, ¬h.Reaches c d →
    ∀ name desc, (h.withClass d info).declares c name desc = h.declares c name desc

theorem declares_eq_true_iff_owns :
    h.declares c name desc = true ↔ ∃ d, h.Reaches c d ∧ h.Owns name desc d :=
  declares_eq_true_iff.trans provides_iff_owns

theorem turns_start_le {n : Nat} {f : Frontier} (hturns : Turns h name desc n (start c) f) :
    n ≤ h.edges + 1 := by
  have hbound := hturns.bounded
  simp only [start, Frontier.potential, List.length_singleton] at hbound
  rw [edges]
  omega

theorem declares_congr (hedge : ∀ c d, k.Edge c d ↔ h.Edge c d)
    (howns : ∀ name desc c, k.Owns name desc c ↔ h.Owns name desc c) :
    k.declares c name desc = h.declares c name desc := by
  have hsame : k.Edge = h.Edge := funext fun c => funext fun d => propext (hedge c d)
  rw [Bool.eq_iff_iff, declares_eq_true_iff_owns, declares_eq_true_iff_owns]
  simp only [Reaches, hsame, howns]

theorem get?_withClass_of_ne {info : ClassInfo} {x : String} (hx : x ≠ d) :
    h.get? x = (h.withClass d info).get? x := by
  have hcompare : compare x d ≠ .eq := fun heq => hx (Std.LawfulEqOrd.eq_of_compare heq)
  rw [get?, get?, withClass, Table.get?_insert, if_neg hcompare]

/-- A class has a member in its hierarchy exactly if a class that it reaches declares it. A search
finds that out within one turn more than there are edges, whatever class it takes at each turn. Only
the edges and the declarations above the class matter. -/
theorem search_decides_reachability (h : Hierarchy) : h.DecidesReachability where
  exact c name desc := declares_eq_true_iff_owns
  bounded c name desc n f := turns_start_le
  unblocked name desc f := finds_or_turns
  settled c name desc n f hturns := by
    have hsearching := (searching_start h name desc c).turns hturns
    refine ⟨fun hfinds => ?_, fun hnil => ?_⟩
    · exact declares_eq_true_iff.2 (hsearching.provides_of_finds hfinds)
    · rw [Bool.eq_false_iff, ne_eq, declares_eq_true_iff]
      exact hsearching.not_provides_of_nil hnil
  completes c name desc := by
    obtain ⟨n, f, hturns, hends⟩ := h.search_turns name desc [] [c]
    exact ⟨n, f, turns_start_le hturns, hturns, hends⟩
  determined k hedge howns c name desc := declares_congr hedge howns
  unreached c d info hd name desc :=
    (agreesAbove_of_differs (fun _ => get?_withClass_of_ne) hd).declares.symm

/-- A search goes once round two classes that extend each other. -/
example :
    let h := (empty.withClass "a/A" (ClassInfo.empty.extending "a/B")).withClass "a/B"
      ((ClassInfo.empty.extending "a/A").declaring "run" "()V")
    h.declares "a/A" "run" "()V" = true ∧ h.declares "a/A" "run" "()I" = false := by
  cbv

end MixinNaming.Hierarchy
