import MixinNaming.Agreement
/-! How a chain of steps ends. A chain gives an answer exactly if each of its steps does, a vote
finds an answer exactly if no candidate fails or dissents, and an edit of a list stops exactly if
the edit of some item does. -/
namespace MixinNaming

variable {α β ε : Type}

theorem except_bind_eq_ok {x : Except ε α} {f : α → Except ε β} {b : β} :
    x.bind f = .ok b ↔ ∃ a, x = .ok a ∧ f a = .ok b := by
  cases x with
  | error e => simp [Except.bind]
  | ok a => simp [Except.bind]

theorem except_map_eq_ok {x : Except ε α} {f : α → β} {b : β} :
    x.map f = .ok b ↔ ∃ a, x = .ok a ∧ f a = b := by
  cases x with
  | error e => simp [Except.map]
  | ok a => simp [Except.map]

theorem except_map_eq_error {x : Except ε α} {f : α → β} {e : ε} :
    x.map f = .error e ↔ x = .error e := by
  cases x with
  | error e' => simp [Except.map]
  | ok a => simp [Except.map]

theorem except_mapError_eq_ok {δ : Type} {x : Except ε α} {f : ε → δ} {a : α} :
    x.mapError f = .ok a ↔ x = .ok a := by
  cases x with
  | error e => exact ⟨nofun, nofun⟩
  | ok b =>
    constructor
    all_goals
      rintro ⟨⟩
      rfl

namespace Attempt

theorem bind_eq_ok {x : Attempt α} {f : α → Attempt β} {b : β} :
    (x.bind f).result = .ok b ↔ ∃ a, x.result = .ok a ∧ (f a).result = .ok b := by
  obtain ⟨events, result⟩ := x
  cases result with
  | error e => simp [bind]
  | ok a => simp [bind]

theorem bind_eq_error {x : Attempt α} {f : α → Attempt β} {e : Fault} :
    (x.bind f).result = .error e ↔
      x.result = .error e ∨ ∃ a, x.result = .ok a ∧ (f a).result = .error e := by
  obtain ⟨events, result⟩ := x
  cases result with
  | error e => simp [bind]
  | ok a => simp [bind]

/-- Whatever stops it is a fault of the mixin itself. -/
def Structural (x : Attempt α) : Prop := ∀ f, x.result = .error f → f.isStructural = true

theorem structural_answer (a : α) : (answer a).Structural := by
  intro f hf
  cases hf

theorem structural_refuse (location : String) (v : Violation) :
    (stop (.illegal location v) : Attempt α).Structural := by
  intro f hf
  cases hf
  rfl

theorem Structural.bind {x : Attempt α} {f : α → Attempt β} (hx : x.Structural)
    (hf : ∀ a, (f a).Structural) : (x.bind f).Structural := by
  intro e he
  rcases bind_eq_error.1 he with he | ⟨a, -, he⟩
  · exact hx e he
  · exact hf a e he

/-- It decides no rename on the way. -/
def Silent (x : Attempt α) : Prop := Event.renames x.events = []

theorem silent_answer (a : α) : (answer a).Silent := rfl

theorem Silent.bind {x : Attempt α} {f : α → Attempt β} (hx : x.Silent)
    (hf : ∀ a, (f a).Silent) : (x.bind f).Silent := by
  obtain ⟨events, result⟩ := x
  cases result with
  | error e => exact hx
  | ok a =>
    have ha := hf a
    rw [Silent] at hx ha
    dsimp only at hx
    rw [Silent, Attempt.bind, Event.renames_append, hx, ha]
    rfl

end Attempt

section Vote

variable [DecidableEq β] {vote : α → Attempt (Option β)} {torn : β → β → Fault}

/-- The earlier candidates count as one more voter. -/
theorem agreeFrom_eq_ok {found result : Option β} {candidates : List α} :
    (agreeFrom vote torn found candidates).result = .ok result ↔
      (∀ a ∈ candidates, (vote a).result = .ok none ∨ (vote a).result = .ok result) ∧
        (found = none ∨ found = result) ∧
        (result = found ∨ ∃ a ∈ candidates, (vote a).result = .ok result) := by
  induction candidates generalizing found with
  | nil =>
    simp only [agreeFrom, Attempt.answer, Except.ok.injEq]
    constructor
    · rintro rfl
      simp
    · rintro ⟨-, -, h | ⟨a, ha, -⟩⟩
      · exact h.symm
      · cases ha
  | cons a rest ih =>
    rw [agreeFrom, Attempt.bind_eq_ok]
    cases hv : (vote a).result with
    | error e => simp [hv]
    | ok ballot =>
      simp only [Except.ok.injEq, exists_eq_left', List.mem_cons, forall_eq_or_imp,
        exists_eq_or_imp, hv]
      cases ballot with
      | none =>
        dsimp only
        rw [ih]
        constructor
        · rintro ⟨hall, hfound, h⟩
          exact ⟨⟨.inl rfl, hall⟩, hfound, h.imp_right .inr⟩
        · rintro ⟨⟨-, hall⟩, hfound, h⟩
          refine ⟨hall, hfound, ?_⟩
          rcases h with h | rfl | h
          · exact .inl h
          · exact .inl (hfound.elim Eq.symm Eq.symm)
          · exact .inr h
      | some b =>
        have hballot : (some b = none ∨ some b = result) ↔ some b = result := by simp
        cases found with
        | none =>
          dsimp only
          rw [ih]
          constructor
          · rintro ⟨hall, hb, h⟩
            obtain rfl := hballot.1 hb
            exact ⟨⟨.inr rfl, hall⟩, .inl rfl, .inr (.inl rfl)⟩
          · rintro ⟨⟨hb, hall⟩, -, -⟩
            obtain rfl := hballot.1 hb
            exact ⟨hall, .inr rfl, .inl rfl⟩
        | some first =>
          dsimp only
          by_cases heq : first = b
          · subst heq
            rw [if_pos rfl, ih]
            constructor
            · rintro ⟨hall, hb, h⟩
              obtain rfl := hballot.1 hb
              exact ⟨⟨.inr rfl, hall⟩, .inr rfl, .inl rfl⟩
            · rintro ⟨⟨hb, hall⟩, -, -⟩
              obtain rfl := hballot.1 hb
              exact ⟨hall, .inr rfl, .inl rfl⟩
          · rw [if_neg heq]
            simp only [Attempt.stop, reduceCtorEq, false_iff, not_and]
            rintro ⟨hb, -⟩ hf -
            have hb := hb.resolve_left not_false
            have hf := hf.resolve_left (by simp)
            exact heq (Option.some.inj (hf.trans hb.symm))

/-- A vote finds `result` if every candidate abstains or is for it, and someone is for it unless it
is that nobody votes. -/
theorem agree_eq_ok {result : Option β} {candidates : List α} :
    (agree vote torn candidates).result = .ok result ↔
      (∀ a ∈ candidates, (vote a).result = .ok none ∨ (vote a).result = .ok result) ∧
        (result = none ∨ ∃ a ∈ candidates, (vote a).result = .ok result) := by
  rw [agree, agreeFrom_eq_ok]
  simp

/-- A vote asks its candidates alone. -/
theorem agree_congr {ballot : α → Attempt (Option β)} {candidates : List α}
    (h : ∀ a ∈ candidates, vote a = ballot a) :
    agree vote torn candidates = agree ballot torn candidates := by
  rw [agree, agree]
  generalize (none : Option β) = found
  induction candidates generalizing found with
  | nil => rfl
  | cons a rest ih =>
    rw [List.forall_mem_cons] at h
    rw [agreeFrom, agreeFrom, h.1]
    simp only [ih h.2]

theorem agreeFrom_structural (hv : ∀ a, (vote a).Structural)
    (ht : ∀ b c, (torn b c).isStructural = true) (found : Option β) (candidates : List α) :
    (agreeFrom vote torn found candidates).Structural := by
  induction candidates generalizing found with
  | nil => exact Attempt.structural_answer found
  | cons a rest ih =>
    refine (hv a).bind fun ballot => ?_
    match found, ballot with
    | found, none => exact ih found
    | none, some b => exact ih (some b)
    | some first, some b =>
      dsimp only
      split
      · exact ih (some first)
      · intro f hf
        cases hf
        exact ht first b

theorem agreeFrom_silent (hv : ∀ a, (vote a).Silent) (found : Option β) (candidates : List α) :
    (agreeFrom vote torn found candidates).Silent := by
  induction candidates generalizing found with
  | nil => rfl
  | cons a rest ih =>
    refine (hv a).bind fun ballot => ?_
    match found, ballot with
    | found, none => exact ih found
    | none, some b => exact ih (some b)
    | some first, some b =>
      dsimp only
      split
      · exact ih (some first)
      · rfl

end Vote

namespace Edit

def Structural (e : Edit α) : Prop := ∀ f, e.fault = some f → f.isStructural = true

def Silent (e : Edit α) : Prop := Event.renames e.events = []

theorem structural_keep (a : α) : (keep a).Structural := by
  intro f hf
  cases hf

theorem structural_refuse (a : α) (location : String) (v : Violation) :
    (stop a (.illegal location v)).Structural := by
  intro f hf
  cases hf
  rfl

theorem andThen_of_some {e : Edit α} {x : Fault} (h : e.fault = some x) (f : α → Edit α) :
    e.andThen f = e := by
  rw [andThen, h]

theorem andThen_of_none {e : Edit α} (h : e.fault = none) (f : α → Edit α) :
    e.andThen f = ⟨(f e.value).value, e.events ++ (f e.value).events, (f e.value).fault⟩ := by
  rw [andThen, h]

theorem andThen_fault_eq_none {e : Edit α} {f : α → Edit α} :
    (e.andThen f).fault = none ↔ e.fault = none ∧ (f e.value).fault = none := by
  cases he : e.fault with
  | some x => simp [andThen_of_some he, he]
  | none => simp [andThen_of_none he]

theorem given_fault_eq_none {x : Attempt β} {a : α} {f : β → Edit α} :
    (given x a f).fault = none ↔ ∃ b, x.result = .ok b ∧ (f b).fault = none := by
  obtain ⟨events, result⟩ := x
  cases result with
  | error e => simp [given]
  | ok b => simp [given]

theorem given_fault_eq_some {x : Attempt β} {a : α} {f : β → Edit α} {e : Fault} :
    (given x a f).fault = some e ↔
      x.result = .error e ∨ ∃ b, x.result = .ok b ∧ (f b).fault = some e := by
  obtain ⟨events, result⟩ := x
  cases result with
  | error e => simp [given]
  | ok b => simp [given]

theorem given_value {x : Attempt β} {b : β} (h : x.result = .ok b) (a : α) (f : β → Edit α) :
    (given x a f).value = (f b).value := by
  rw [given, h]

theorem andThen_congr {e : Edit α} {f g : α → Edit α} (h : e.fault = none → f e.value = g e.value) :
    e.andThen f = e.andThen g := by
  cases he : e.fault with
  | some x => rw [andThen_of_some he, andThen_of_some he]
  | none => rw [andThen_of_none he, andThen_of_none he, h he]

theorem given_congr {x : Attempt β} {a : α} {f g : β → Edit α}
    (h : ∀ b, x.result = .ok b → f b = g b) : given x a f = given x a g := by
  rw [given, given]
  cases hx : x.result with
  | error e => rfl
  | ok b => simp only [h b hx]

section Each

variable {f : α → Edit α}

/-- How the edit of a list goes on after its first item. -/
theorem eachFrom_cons_cases (f : Nat → α → Edit α) (start : Nat) (a : α) (rest : List α) :
    (∃ x, (f start a).fault = some x ∧
        eachFrom f start (a :: rest) = (f start a).map (· :: rest)) ∨
      ((f start a).fault = none ∧ eachFrom f start (a :: rest) =
        ⟨(f start a).value :: (eachFrom f (start + 1) rest).value,
          (f start a).events ++ (eachFrom f (start + 1) rest).events,
          (eachFrom f (start + 1) rest).fault⟩) := by
  cases hf : (f start a).fault with
  | some x => exact .inl ⟨x, rfl, by simp [eachFrom, hf]⟩
  | none => exact .inr ⟨rfl, by simp [eachFrom, hf]⟩

theorem each_fault_eq_none {items : List α} :
    (each f items).fault = none ↔ ∀ a ∈ items, (f a).fault = none := by
  rw [each]
  generalize 0 = start
  induction items generalizing start with
  | nil => simp [eachFrom, keep]
  | cons a rest ih =>
    rw [List.forall_mem_cons]
    rcases eachFrom_cons_cases (fun _ => f) start a rest with ⟨x, hx, heq⟩ | ⟨hx, heq⟩
    · simp [heq, map, hx]
    · rw [heq, ih]
      simp [hx]

theorem eachFrom_congr {f g : Nat → α → Edit α} {items : List α}
    (h : ∀ i, ∀ a ∈ items, f i a = g i a) (start : Nat) :
    eachFrom f start items = eachFrom g start items := by
  induction items generalizing start with
  | nil => rfl
  | cons a rest ih =>
    rw [eachFrom, eachFrom, h start a List.mem_cons_self,
      ih (fun i b hb => h i b (List.mem_cons_of_mem a hb)) (start + 1)]

theorem each_congr {g : α → Edit α} {items : List α} (h : ∀ a ∈ items, f a = g a) :
    each f items = each g items :=
  eachFrom_congr (fun _ => h) 0

theorem each_structural (h : ∀ a, (f a).Structural) (items : List α) :
    (each f items).Structural := by
  rw [each]
  generalize 0 = start
  induction items generalizing start with
  | nil => exact structural_keep []
  | cons a rest ih =>
    rcases eachFrom_cons_cases (fun _ => f) start a rest with ⟨x, -, heq⟩ | ⟨-, heq⟩
    · rw [heq]
      exact h a
    · rw [heq]
      exact ih (start + 1)

/-- What holds of the events of each item holds of all of them together. -/
theorem each_events {p : List Event → Prop} (hnil : p []) (happend : ∀ a b, p a → p b → p (a ++ b))
    {items : List α} (h : ∀ a ∈ items, p (f a).events) : p (each f items).events := by
  rw [each]
  generalize 0 = start
  induction items generalizing start with
  | nil => exact hnil
  | cons a rest ih =>
    rw [List.forall_mem_cons] at h
    rcases eachFrom_cons_cases (fun _ => f) start a rest with ⟨x, -, heq⟩ | ⟨-, heq⟩
    · rw [heq]
      exact h.1
    · rw [heq]
      exact happend _ _ h.1 (ih h.2 (start + 1))

theorem each_silent (h : ∀ a, (f a).Silent) (items : List α) : (each f items).Silent := by
  refine each_events (p := fun events => Event.renames events = []) rfl ?_ fun a _ => h a
  intro a b ha hb
  rw [Event.renames_append, ha, hb]
  rfl

theorem eachFrom_const (f : α → Edit α) (start : Nat) (items : List α) :
    eachFrom (fun _ => f) start items = each f items := by
  rw [each]
  generalize 0 = other
  induction items generalizing start other with
  | nil => rfl
  | cons a rest ih => rw [eachFrom, eachFrom, ih (start + 1) (other + 1)]

theorem each_cons_of_none {a : α} (h : (f a).fault = none) (rest : List α) :
    each f (a :: rest) = ⟨(f a).value :: (each f rest).value,
      (f a).events ++ (each f rest).events, (each f rest).fault⟩ := by
  rcases eachFrom_cons_cases (fun _ => f) 0 a rest with ⟨x, hx, -⟩ | ⟨-, heq⟩
  · rw [h] at hx
    cases hx
  · rw [each, heq, eachFrom_const]

theorem each_cons_of_some {a : α} {x : Fault} (h : (f a).fault = some x) (rest : List α) :
    each f (a :: rest) = (f a).map (· :: rest) := by
  rcases eachFrom_cons_cases (fun _ => f) 0 a rest with ⟨_, -, heq⟩ | ⟨hnone, -⟩
  · exact heq
  · rw [h] at hnone
    cases hnone

/-- Unless the front part stops, the rest of a list is edited as if it stood alone. -/
theorem each_append_of_none {front : List α} (h : (each f front).fault = none)
    (rest : List α) :
    each f (front ++ rest) = ⟨(each f front).value ++ (each f rest).value,
      (each f front).events ++ (each f rest).events, (each f rest).fault⟩ := by
  induction front with
  | nil => rfl
  | cons a more ih =>
    have ha : (f a).fault = none := each_fault_eq_none.1 h a List.mem_cons_self
    have hmore : (each f more).fault = none :=
      each_fault_eq_none.2 fun b hb => each_fault_eq_none.1 h b (List.mem_cons_of_mem a hb)
    rw [List.cons_append, each_cons_of_none ha, each_cons_of_none ha, ih hmore]
    simp only [List.cons_append, List.append_assoc]

theorem each_append_of_some {front : List α} {x : Fault} (h : (each f front).fault = some x)
    (rest : List α) : each f (front ++ rest) = (each f front).map (· ++ rest) := by
  induction front with
  | nil => cases h
  | cons a more ih =>
    cases ha : (f a).fault with
    | some y =>
      rw [List.cons_append, each_cons_of_some ha, each_cons_of_some ha]
      rfl
    | none =>
      rw [each_cons_of_none ha] at h
      rw [List.cons_append, each_cons_of_none ha, each_cons_of_none ha, ih h]
      rfl

/-- An edit of a list that is not stopped has edited every item by itself. -/
theorem each_of_completed {items : List α} (h : (each f items).fault = none) :
    each f items = ⟨items.map fun a => (f a).value, items.flatMap fun a => (f a).events, none⟩ := by
  induction items with
  | nil => rfl
  | cons a rest ih =>
    have ha : (f a).fault = none := each_fault_eq_none.1 h a List.mem_cons_self
    have hrest : (each f rest).fault = none :=
      each_fault_eq_none.2 fun b hb => each_fault_eq_none.1 h b (List.mem_cons_of_mem a hb)
    rw [each_cons_of_none ha, ih hrest]
    rfl

theorem eachFrom_singleton (f : Nat → α → Edit α) (start : Nat) (a : α) :
    eachFrom f start [a] = (f start a).map fun b => [b] := by
  rcases eachFrom_cons_cases f start a [] with ⟨x, -, heq⟩ | ⟨hnone, heq⟩
  · exact heq
  · rw [heq, map, hnone]
    exact congrArg (Edit.mk _ · none) (List.append_nil _)

theorem eachIndexed_singleton (f : Nat → α → Edit α) (a : α) :
    eachIndexed f [a] = (f 0 a).map fun b => [b] := eachFrom_singleton f 0 a

theorem each_singleton (f : α → Edit α) (a : α) : each f [a] = (f a).map fun b => [b] :=
  eachFrom_singleton _ 0 a

theorem each_keep (items : List α) : each keep items = keep items := by
  rw [each_of_completed (each_fault_eq_none.2 fun _ _ => rfl)]
  simp [keep]

/-- An edit of a list that is stopped has edited the items before the one that stops it, and has
not come to those after it. -/
theorem each_of_stopped {items : List α} {x : Fault} (h : (each f items).fault = some x) :
    ∃ before a after, items = before ++ a :: after ∧ (each f before).fault = none ∧
      (f a).fault = some x ∧ each f items = ⟨(each f before).value ++ (f a).value :: after,
        (each f before).events ++ (f a).events, some x⟩ := by
  induction items with
  | nil => cases h
  | cons a rest ih =>
    cases ha : (f a).fault with
    | some y =>
      rw [each_cons_of_some ha] at h ⊢
      have hy : y = x := Option.some.inj (ha.symm.trans h)
      subst hy
      refine ⟨[], a, rest, rfl, rfl, ha, ?_⟩
      rw [map, ha]
      rfl
    | none =>
      rw [each_cons_of_none ha] at h ⊢
      obtain ⟨before, b, after, rfl, hbefore, hb, heq⟩ := ih h
      refine ⟨a :: before, b, after, rfl, ?_, hb, ?_⟩
      · rw [each_cons_of_none ha]
        exact hbefore
      · rw [heq, each_cons_of_none ha]
        simp only [List.cons_append, List.append_assoc]

end Each

theorem atIndex_append (f : α → Edit α) (before after : List α) (a : α) :
    atIndex before.length f (before ++ a :: after) = (f a).map fun b => before ++ b :: after := by
  have hset : (before ++ a :: after).set before.length = fun b => before ++ b :: after := by
    funext b
    rw [List.set_append_right _ _ (Nat.le_refl _), Nat.sub_self, List.set_cons_zero]
  rw [atIndex, List.getElem?_append_right (Nat.le_refl _), Nat.sub_self, List.getElem?_cons_zero,
    ← hset]

/-- Items that are seen under another form are edited under it. -/
theorem each_map {k : α → β} {f : α → Edit α} {g : β → Edit β}
    (h : ∀ a, g (k a) = (f a).map k) (items : List α) :
    each g (items.map k) = (each f items).map (List.map k) := by
  induction items with
  | nil => rfl
  | cons a rest ih =>
    have hfault : (g (k a)).fault = (f a).fault := by rw [h a]; rfl
    cases ha : (f a).fault with
    | some x =>
      rw [List.map_cons, each_cons_of_some (hfault.trans ha), each_cons_of_some ha, h a]
      rfl
    | none =>
      rw [List.map_cons, each_cons_of_none (hfault.trans ha), each_cons_of_none ha, ih, h a]
      rfl

end Edit

end MixinNaming
