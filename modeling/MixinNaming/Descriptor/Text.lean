import MixinNaming.Descriptor.Reader
/-! Descriptors as texts: rewriting the class names of one, taking a method descriptor apart and
putting it together. Two walks go over the text. One copies it and passes every class name on; the
other cuts a method descriptor behind every argument and keeps the pieces as they stand. -/
namespace MixinNaming

/-- The names that a walk has passed on, and what has come of it. -/
structure Rewriting (α : Type) where
  calls : List String
  outcome : Except Stop α

namespace Rewriting

variable {α β : Type}

def answer (a : α) : Rewriting α := ⟨[], .ok a⟩

def stop (e : Stop) : Rewriting α := ⟨[], .error e⟩

def bind (x : Rewriting α) (next : α → Rewriting β) : Rewriting β :=
  match x.outcome with
  | .error e => ⟨x.calls, .error e⟩
  | .ok a => ⟨x.calls ++ (next a).calls, (next a).outcome⟩

def map (f : α → β) (x : Rewriting α) : Rewriting β := ⟨x.calls, x.outcome.map f⟩

end Rewriting

/-- Copies a type; the name of a class is passed on. -/
def rewriteType (f : String → String) (t : FieldType) : Rewriting (List Char) :=
  match t.base with
  | .primitive _ => .answer t.chars
  | .reference name => ⟨[name], .ok (FieldType.chars ⟨t.dimensions, .reference (f name)⟩)⟩

/-- Copies the arguments before the closing parenthesis, and keeps what follows it. -/
def rewriteArguments (f : String → String) (cs : List Char) : Rewriting (List Char × List Char) :=
  match cs with
  | [] => .stop .ended
  | c :: rest =>
    if c = ')' then .answer ([], rest)
    else
      match h : readFieldType (c :: rest) with
      | .error e => .stop e
      | .ok (t, left) =>
        have := readFieldType_shorter h
        (rewriteType f t).bind fun piece =>
          (rewriteArguments f left).map fun p => (piece ++ p.1, p.2)
termination_by cs.length
decreasing_by exact this

/-- A type that has to reach the end. -/
def rewriteLast (f : String → String) (cs : List Char) : Rewriting (List Char) :=
  match readFieldType cs with
  | .error e => .stop e
  | .ok (t, []) => rewriteType f t
  | .ok (t, c :: rest) => (rewriteType f t).bind fun _ => .stop (.trailing (c :: rest))

/-- A result, which is void or a type that has to reach the end. -/
def rewriteResult (f : String → String) (cs : List Char) : Rewriting (List Char) :=
  if cs = ['V'] then .answer cs else rewriteLast f cs

/-- What follows the opening parenthesis of a method descriptor. -/
def rewriteMethod (f : String → String) (cs : List Char) : Rewriting (List Char) :=
  (rewriteArguments f cs).bind fun p =>
    (rewriteResult f p.2).map fun result => p.1 ++ ')' :: result

def rewriteDescriptor (f : String → String) (cs : List Char) : Rewriting (List Char) :=
  match cs with
  | [] => .stop .ended
  | c :: rest =>
    if c = '(' then (rewriteMethod f rest).map ('(' :: ·) else rewriteLast f (c :: rest)

/-- The piece of text that the first type takes up, and what follows it. -/
def cutFieldType (cs : List Char) : Except Stop (List Char × List Char) :=
  (readFieldType cs).map fun p => (cs.take (cs.length - p.2.length), p.2)

theorem cutFieldType_shorter {cs piece rest : List Char}
    (h : cutFieldType cs = .ok (piece, rest)) : rest.length < cs.length := by
  unfold cutFieldType at h
  cases hr : readFieldType cs with
  | error e => simp [hr, Except.map] at h
  | ok p =>
    simp only [hr, Except.map, Except.ok.injEq, Prod.mk.injEq] at h
    obtain ⟨-, rfl⟩ := h
    exact readFieldType_shorter (t := p.1) hr

/-- The pieces of the arguments before the closing parenthesis, and what follows it. -/
def cutArguments (cs : List Char) : Except Stop (List (List Char) × List Char) :=
  match cs with
  | [] => .error .ended
  | c :: rest =>
    if c = ')' then .ok ([], rest)
    else
      match h : cutFieldType (c :: rest) with
      | .error e => .error e
      | .ok (piece, left) =>
        have := cutFieldType_shorter h
        (cutArguments left).map fun p => (piece :: p.1, p.2)
termination_by cs.length
decreasing_by exact this

/-- A result keeps its text if it is void or one type that reaches the end. -/
def cutResult (cs : List Char) : Except Stop (List Char) :=
  if cs = ['V'] then .ok cs
  else
    match cutFieldType cs with
    | .error e => .error e
    | .ok (_, []) => .ok cs
    | .ok (_, c :: rest) => .error (.trailing (c :: rest))

/-- What follows the opening parenthesis of a method descriptor, in pieces. -/
def cutMethod (cs : List Char) : Except Stop (List (List Char) × List Char) :=
  (cutArguments cs).bind fun p => (cutResult p.2).map fun result => (p.1, result)

namespace Descriptor

/-- Whether the text denotes a method. -/
def isMethod (d : String) : Bool := d.toList.head? == some '('

theorem isMethod_iff {d : String} : isMethod d = true ↔ ∃ cs, d.toList = '(' :: cs := by
  rw [isMethod, beq_iff_eq, List.head?_eq_some_iff]

/-- The walk over a descriptor, with the names that it passes on. -/
def rewriting (f : String → String) (d : String) : Rewriting (List Char) :=
  rewriteDescriptor f d.toList

def mapClassNames (f : String → String) (d : String) : Except DescriptorError String :=
  if d.toList = [] then .error .empty
  else ((rewriting f d).outcome.mapError (Stop.error d)).map .ofList

def validate (d : String) : Except DescriptorError Unit := (mapClassNames id d).map fun _ => ()

/-- The class names met on the way, also those before an error. -/
def visitedNames (d : String) : List String := (rewriting id d).calls

/-- The argument descriptors and the result descriptor of a method descriptor. -/
def split (d : String) : Except DescriptorError (List String × String) :=
  match d.toList with
  | '(' :: cs =>
    match cutMethod cs with
    | .ok (arguments, result) => .ok (arguments.map .ofList, .ofList result)
    | .error e => .error (e.error d)
  | _ => .error (.notAMethod d)

def argumentTypes (d : String) : Except DescriptorError (List String) := (split d).map (·.1)

/-- Puts parts together as they are. -/
def build (arguments : List String) (result : String) : String :=
  "(" ++ String.join arguments ++ ")" ++ result

end Descriptor

end MixinNaming
