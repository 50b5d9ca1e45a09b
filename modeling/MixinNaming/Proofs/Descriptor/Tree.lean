import MixinNaming.Descriptor.Text
/-! Descriptors as trees. A method type lists argument types before a result, and only the result
may be void. The reader of trees goes over a text as the rewriting of class names does: both stop at
the same places, and the names that have been passed on are those of the types that are complete.
-/
namespace MixinNaming

/-- A missing result is void. -/
structure MethodType where
  arguments : List FieldType
  result : Option FieldType
  deriving DecidableEq, Repr

inductive Descriptor where
  | field (type : FieldType)
  | method (type : MethodType)
  deriving DecidableEq, Repr

def LegalClassName (name : String) : Prop :=
  name.toList ≠ [] ∧ ∀ c ∈ name.toList, isNameChar c = true

instance (name : String) : Decidable (LegalClassName name) :=
  inferInstanceAs (Decidable (_ ∧ _))

def resultChars : Option FieldType → List Char
  | none => ['V']
  | some t => t.chars

def MethodType.chars (m : MethodType) : List Char :=
  '(' :: (m.arguments.flatMap FieldType.chars ++ ')' :: resultChars m.result)

def Descriptor.chars : Descriptor → List Char
  | .field t => t.chars
  | .method m => m.chars

def FieldType.render (t : FieldType) : String := .ofList t.chars
def Descriptor.render (d : Descriptor) : String := .ofList d.chars

def MethodType.renderResult (m : MethodType) : String := .ofList (resultChars m.result)

def BaseType.className? : BaseType → Option String
  | .primitive _ => none
  | .reference name => some name

def FieldType.className? (t : FieldType) : Option String := t.base.className?

def MethodType.types (m : MethodType) : List FieldType := m.arguments ++ m.result.toList

def Descriptor.types : Descriptor → List FieldType
  | .field t => [t]
  | .method m => m.types

def Descriptor.classNames (d : Descriptor) : List String := d.types.filterMap FieldType.className?

def BaseType.mapNames (f : String → String) : BaseType → BaseType
  | .primitive p => .primitive p
  | .reference name => .reference (f name)

def FieldType.mapNames (f : String → String) (t : FieldType) : FieldType :=
  { t with base := t.base.mapNames f }

def MethodType.mapNames (f : String → String) (m : MethodType) : MethodType :=
  ⟨m.arguments.map (·.mapNames f), m.result.map (·.mapNames f)⟩

def Descriptor.mapNames (f : String → String) : Descriptor → Descriptor
  | .field t => .field (t.mapNames f)
  | .method m => .method (m.mapNames f)

def BaseType.Legal : BaseType → Prop
  | .primitive _ => True
  | .reference name => LegalClassName name

def FieldType.Legal (t : FieldType) : Prop := t.base.Legal

def Descriptor.Legal (d : Descriptor) : Prop := ∀ t ∈ d.types, t.Legal

def MethodType.tailChars (m : MethodType) : List Char :=
  m.arguments.flatMap FieldType.chars ++ ')' :: resultChars m.result

def readArguments (cs : List Char) : List FieldType × Except Stop (List Char) :=
  match cs with
  | [] => ([], .error .ended)
  | c :: rest =>
    if c = ')' then ([], .ok rest)
    else
      match h : readFieldType (c :: rest) with
      | .error e => ([], .error e)
      | .ok (t, left) =>
        have := readFieldType_shorter h
        let more := readArguments left
        (t :: more.1, more.2)
termination_by cs.length
decreasing_by exact this

/-- A walk to the end of a text: the types completed on the way, and what the text denotes. -/
structure Reading (α : Type) where
  types : List FieldType
  outcome : Except Stop α

def Reading.map {α β : Type} (f : α → β) (r : Reading α) : Reading β := ⟨r.types, r.outcome.map f⟩

def readLast (cs : List Char) : Reading FieldType :=
  match readFieldType cs with
  | .error e => ⟨[], .error e⟩
  | .ok (t, []) => ⟨[t], .ok t⟩
  | .ok (t, c :: rest) => ⟨[t], .error (.trailing (c :: rest))⟩

def readResult (cs : List Char) : Reading (Option FieldType) :=
  if cs = ['V'] then ⟨[], .ok none⟩ else (readLast cs).map some

def readMethod (cs : List Char) : Reading MethodType :=
  match readArguments cs with
  | (args, .error e) => ⟨args, .error e⟩
  | (args, .ok rest) =>
    let last := readResult rest
    ⟨args ++ last.types, last.outcome.map fun result => ⟨args, result⟩⟩

def readDescriptor (cs : List Char) : Reading Descriptor :=
  match cs with
  | [] => ⟨[], .error .ended⟩
  | c :: rest =>
    if c = '(' then (readMethod rest).map .method else (readLast (c :: rest)).map .field

/-- The rewriting that has come as far as the reader, with what the reader has found. -/
def Reading.rewriting {α β : Type} (r : Reading α) (found : α → β) : Rewriting β :=
  ⟨r.types.filterMap FieldType.className?, r.outcome.map found⟩

theorem Reading.rewriting_map {α β γ : Type} (r : Reading α) (g : α → β) (found : β → γ) :
    (r.map g).rewriting found = r.rewriting (found ∘ g) := by
  obtain ⟨types, outcome⟩ := r
  cases outcome <;> rfl

theorem Reading.map_rewriting {α β γ : Type} (r : Reading α) (found : α → β) (g : β → γ) :
    (r.rewriting found).map g = r.rewriting (g ∘ found) := by
  obtain ⟨types, outcome⟩ := r
  cases outcome <;> rfl

theorem filterMap_className?_cons (t : FieldType) (more : List FieldType) :
    (t :: more).filterMap FieldType.className? =
      t.className?.toList ++ more.filterMap FieldType.className? := by
  cases h : t.className? <;> simp [h]

variable {cs : List Char}

section Arguments

theorem readArguments_close (rest : List Char) : readArguments (')' :: rest) = ([], .ok rest) := by
  rw [readArguments, if_pos rfl]

theorem readArguments_type {c : Char} {t : FieldType} {left : List Char} (hc : c ≠ ')')
    (h : readFieldType (c :: cs) = .ok (t, left)) :
    readArguments (c :: cs) = (t :: (readArguments left).1, (readArguments left).2) := by
  rw [readArguments, if_neg hc]
  split
  · next e he =>
    rw [h] at he
    cases he
  · next t' left' he =>
    rw [h] at he
    cases he
    rfl

theorem readArguments_fail {c : Char} {e : Stop} (hc : c ≠ ')')
    (h : readFieldType (c :: cs) = .error e) : readArguments (c :: cs) = ([], .error e) := by
  rw [readArguments, if_neg hc]
  split
  · next e' he =>
    rw [h] at he
    cases he
    rfl
  · next he =>
    rw [h] at he
    cases he

/-- The walk over the arguments as a way to argue: it is at the end, at the closing parenthesis, at
a place where no type begins, or it goes on with what a type leaves of the text. -/
theorem readArguments_induction {p : List Char → Prop} (nil : p [])
    (close : ∀ rest, p (')' :: rest))
    (fail : ∀ c tail e, c ≠ ')' → readFieldType (c :: tail) = .error e → p (c :: tail))
    (type : ∀ c tail t left, c ≠ ')' → readFieldType (c :: tail) = .ok (t, left) → p left →
      p (c :: tail)) (cs : List Char) : p cs := by
  induction hn : cs.length using Nat.strongRecOn generalizing cs with
  | ind n ih =>
    cases cs with
    | nil => exact nil
    | cons c tail =>
      by_cases hc : c = ')'
      · rw [hc]
        exact close tail
      · cases hread : readFieldType (c :: tail) with
        | error e => exact fail c tail e hc hread
        | ok q =>
          obtain ⟨t, left⟩ := q
          have hshort := readFieldType_shorter hread
          exact type c tail t left hc hread (ih left.length (by omega) left rfl)

theorem rewriteType_eq (f : String → String) (t : FieldType) :
    rewriteType f t = ⟨t.className?.toList, .ok (t.mapNames f).chars⟩ := by
  obtain ⟨dimensions, base⟩ := t
  cases base <;> rfl

theorem rewriteArguments_close (f : String → String) (rest : List Char) :
    rewriteArguments f (')' :: rest) = .answer ([], rest) := by
  rw [rewriteArguments, if_pos rfl]

theorem rewriteArguments_type {c : Char} {t : FieldType} {left : List Char} (hc : c ≠ ')')
    (h : readFieldType (c :: cs) = .ok (t, left)) (f : String → String) :
    rewriteArguments f (c :: cs) = (rewriteType f t).bind fun piece =>
      (rewriteArguments f left).map fun p => (piece ++ p.1, p.2) := by
  rw [rewriteArguments, if_neg hc]
  split
  · next e he =>
    rw [h] at he
    cases he
  · next t' left' he =>
    rw [h] at he
    cases he
    rfl

theorem rewriteArguments_fail {c : Char} {e : Stop} (hc : c ≠ ')')
    (h : readFieldType (c :: cs) = .error e) (f : String → String) :
    rewriteArguments f (c :: cs) = .stop e := by
  rw [rewriteArguments, if_neg hc]
  split
  · next e' he =>
    rw [h] at he
    cases he
    rfl
  · next he =>
    rw [h] at he
    cases he

theorem rewriteArguments_eq (f : String → String) (cs : List Char) :
    rewriteArguments f cs = Reading.rewriting ⟨(readArguments cs).1, (readArguments cs).2⟩
      fun rest => ((readArguments cs).1.flatMap fun t => (t.mapNames f).chars, rest) := by
  induction cs using readArguments_induction with
  | nil =>
    rw [rewriteArguments, readArguments]
    rfl
  | close rest =>
    rw [rewriteArguments_close, readArguments_close]
    rfl
  | fail c tail e hc hread =>
    rw [rewriteArguments_fail hc hread, readArguments_fail hc hread]
    rfl
  | type c tail t left hc hread ih =>
    rw [rewriteArguments_type hc hread, readArguments_type hc hread, rewriteType_eq, ih,
      Reading.rewriting, Reading.rewriting, filterMap_className?_cons]
    dsimp only [Rewriting.bind, Rewriting.map]
    cases (readArguments left).2 <;> rfl

end Arguments

theorem rewriteLast_eq (f : String → String) (cs : List Char) :
    rewriteLast f cs = (readLast cs).rewriting fun t => (t.mapNames f).chars := by
  have hone : ∀ t : FieldType, [t].filterMap FieldType.className? = t.className?.toList := by
    intro t
    rw [filterMap_className?_cons]
    exact List.append_nil _
  rw [rewriteLast, readLast]
  cases hread : readFieldType cs with
  | error e => rfl
  | ok p =>
    obtain ⟨t, rest⟩ := p
    cases rest with
    | nil =>
      dsimp only
      rw [rewriteType_eq, Reading.rewriting, hone]
      rfl
    | cons c rest =>
      dsimp only
      rw [rewriteType_eq, Reading.rewriting, hone, Rewriting.bind, Rewriting.stop, List.append_nil]
      rfl

theorem rewriteResult_eq (f : String → String) (cs : List Char) :
    rewriteResult f cs =
      (readResult cs).rewriting fun result => resultChars (result.map (·.mapNames f)) := by
  rw [rewriteResult, readResult]
  split
  · next hvoid =>
    rw [hvoid]
    rfl
  · rw [rewriteLast_eq, Reading.rewriting_map]
    rfl

theorem MethodType.tailChars_mapNames (f : String → String) (m : MethodType) :
    (m.mapNames f).tailChars = (m.arguments.flatMap fun t => (t.mapNames f).chars) ++
      ')' :: resultChars (m.result.map (·.mapNames f)) := by
  rw [tailChars, mapNames, List.flatMap_map]

theorem rewriteMethod_eq (f : String → String) (cs : List Char) :
    rewriteMethod f cs = (readMethod cs).rewriting fun m => (m.mapNames f).tailChars := by
  rw [rewriteMethod, rewriteArguments_eq, readMethod]
  cases readArguments cs with
  | mk arguments outcome =>
    cases outcome with
    | error e => rfl
    | ok rest =>
      dsimp only [Reading.rewriting, Rewriting.bind, Rewriting.map, Except.map]
      rw [rewriteResult_eq, Reading.rewriting, List.filterMap_append]
      dsimp only
      cases (readResult rest).outcome with
      | error e => rfl
      | ok result => simp only [Except.map, MethodType.tailChars_mapNames]

/-- The rewriting is the reading of a tree, with other names in it. -/
theorem rewriteDescriptor_eq (f : String → String) (cs : List Char) :
    rewriteDescriptor f cs = (readDescriptor cs).rewriting fun t => (t.mapNames f).chars := by
  cases cs with
  | nil => rfl
  | cons c rest =>
    rw [rewriteDescriptor, readDescriptor]
    split
    · rw [rewriteMethod_eq, Reading.map_rewriting, Reading.rewriting_map]
      rfl
    · rw [rewriteLast_eq, Reading.rewriting_map]
      rfl

namespace Descriptor

def parse (d : String) : Except DescriptorError Descriptor :=
  if d.toList = [] then .error .empty
  else (readDescriptor d.toList).outcome.mapError (Stop.error d)

theorem rewriting_calls (f : String → String) (d : String) :
    (rewriting f d).calls = (readDescriptor d.toList).types.filterMap FieldType.className? := by
  rw [rewriting, rewriteDescriptor_eq]
  rfl

/-- Another way of rewriting a text passes the same names on. -/
theorem rewriting_calls_eq (f : String → String) (d : String) :
    (rewriting f d).calls = visitedNames d :=
  (rewriting_calls f d).trans (rewriting_calls id d).symm

theorem mapClassNames_eq (f : String → String) (d : String) :
    mapClassNames f d = (parse d).map fun t => (t.mapNames f).render := by
  rw [mapClassNames, parse, rewriting, rewriteDescriptor_eq, Reading.rewriting]
  split
  · rfl
  · cases (readDescriptor d.toList).outcome <;> rfl

theorem validate_eq (d : String) : validate d = (parse d).map fun _ => () := by
  rw [validate, mapClassNames_eq]
  cases parse d <;> rfl

end Descriptor

end MixinNaming
