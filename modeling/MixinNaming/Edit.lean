import MixinNaming.Fault
/-! Runs that may stop half way. An attempt looks for an answer; an edit changes a value in place
and, when it stops, still holds the value as far as it was changed. Both list what happened on the
way, in order: gaps that were reported, questions put to the class hierarchy, renames decided. -/
namespace MixinNaming

/-- What the class hierarchy is asked: whether a class or anything above it declares a member, or
which members of a class agree with the given parts. -/
inductive Query where
  | declares (c name desc : String)
  | infer (c : String) (name desc : Option String)
  deriving DecidableEq, Repr

inductive Event where
  | gap (gap : Gap)
  | query (query : Query)
  | rename (rename : Rename)
  deriving DecidableEq, Repr

namespace Event

def gap? : Event → Option Gap
  | .gap g => some g
  | _ => none

def rename? : Event → Option Rename
  | .rename r => some r
  | _ => none

def query? : Event → Option Query
  | .query q => some q
  | _ => none

def gaps (events : List Event) : List Gap := events.filterMap gap?
def renames (events : List Event) : List Rename := events.filterMap rename?
def queries (events : List Event) : List Query := events.filterMap query?

@[simp] theorem gaps_append (a b : List Event) : gaps (a ++ b) = gaps a ++ gaps b := by
  simp [gaps]

theorem gaps_append_eq_nil {a b : List Event} (ha : gaps a = []) (hb : gaps b = []) :
    gaps (a ++ b) = [] := by
  rw [gaps_append, ha, hb]
  rfl

@[simp] theorem renames_append (a b : List Event) : renames (a ++ b) = renames a ++ renames b := by
  simp [renames]

@[simp] theorem queries_append (a b : List Event) : queries (a ++ b) = queries a ++ queries b := by
  simp [queries]

end Event

structure Attempt (α : Type) where
  events : List Event
  result : Except Fault α

structure Edit (α : Type) where
  value : α
  events : List Event
  fault : Option Fault

variable {α β γ : Type}

namespace Attempt

def answer (a : α) : Attempt α := ⟨[], .ok a⟩

def stop (f : Fault) : Attempt α := ⟨[], .error f⟩

def ofExcept (r : Except Fault α) : Attempt α := ⟨[], r⟩

/-- The answer goes on to the next attempt; a fault ends the run. -/
def bind (x : Attempt α) (next : α → Attempt β) : Attempt β :=
  match x.result with
  | .ok a => ⟨x.events ++ (next a).events, (next a).result⟩
  | .error f => ⟨x.events, .error f⟩

@[simp] theorem answer_bind (a : α) (next : α → Attempt β) : (answer a).bind next = next a := rfl

end Attempt

namespace Edit

def keep (a : α) : Edit α := ⟨a, [], none⟩

def stop (a : α) (f : Fault) : Edit α := ⟨a, [], some f⟩

/-- Goes on where the first edit ended, unless it stopped. -/
def andThen (e : Edit α) (next : α → Edit α) : Edit α :=
  match e.fault with
  | some _ => e
  | none => ⟨(next e.value).value, e.events ++ (next e.value).events, (next e.value).fault⟩

/-- An edit that needs an answer first; without one the value stays as it is. -/
def given (x : Attempt β) (a : α) (next : β → Edit α) : Edit α :=
  match x.result with
  | .ok b => ⟨(next b).value, x.events ++ (next b).events, (next b).fault⟩
  | .error f => ⟨a, x.events, some f⟩

/-- Puts an answer into place. -/
def replace (x : Attempt β) (a : α) (put : β → α) : Edit α := given x a fun b => keep (put b)

/-- Makes sure of something and changes nothing. -/
def check (x : Attempt Unit) (a : α) : Edit α := replace x a fun _ => a

/-- The edit of a part, seen as an edit of the whole. -/
def map (f : α → β) (e : Edit α) : Edit β := ⟨f e.value, e.events, e.fault⟩

/-- Edits the items of a list in order, counting from `start`; after a fault the items that follow
stay as they are. -/
def eachFrom (f : Nat → α → Edit α) (start : Nat) : List α → Edit (List α)
  | [] => keep []
  | a :: rest =>
    let head := f start a
    match head.fault with
    | some _ => head.map (· :: rest)
    | none =>
      let tail := eachFrom f (start + 1) rest
      ⟨head.value :: tail.value, head.events ++ tail.events, tail.fault⟩

def each (f : α → Edit α) (items : List α) : Edit (List α) := eachFrom (fun _ => f) 0 items

def eachIndexed (f : Nat → α → Edit α) (items : List α) : Edit (List α) := eachFrom f 0 items

/-- Edits the item at one place of a list. -/
def atIndex (index : Nat) (f : α → Edit α) (items : List α) : Edit (List α) :=
  match items[index]? with
  | some a => (f a).map (items.set index)
  | none => keep items

@[simp] theorem keep_andThen (a : α) (next : α → Edit α) : (keep a).andThen next = next a := rfl

@[simp] theorem stop_andThen (a : α) (f : Fault) (next : α → Edit α) :
    (stop a f).andThen next = stop a f := rfl

@[simp] theorem andThen_keep (e : Edit α) : e.andThen keep = e := by
  obtain ⟨value, events, fault⟩ := e
  cases fault <;> simp [andThen, keep]

theorem map_map (f : α → β) (g : β → γ) (e : Edit α) : (e.map f).map g = e.map (g ∘ f) := rfl

theorem eachFrom_length (f : Nat → α → Edit α) (start : Nat) (items : List α) :
    (eachFrom f start items).value.length = items.length := by
  induction items generalizing start with
  | nil => rfl
  | cons a rest ih =>
    unfold eachFrom
    dsimp only
    split
    · rfl
    · simp [ih]

end Edit

end MixinNaming
