import MixinNaming.Descriptor.Basic
/-! Reading the types of a descriptor. A walk goes from left to right, type by type, and stops at
the first offending place; a place is reported as a number of UTF-8 bytes. -/
namespace MixinNaming

inductive DescriptorError where
  | empty
  | unexpectedChar (descriptor : String) (offset : Nat) (found : Char)
  | unexpectedEnd (descriptor : String)
  | unterminatedReference (descriptor : String)
  | trailing (descriptor : String) (offset : Nat)
  | notAMethod (descriptor : String)
  deriving DecidableEq, Repr

def DescriptorError.message : DescriptorError → String
  | .empty => "empty descriptor"
  | .unexpectedChar d offset found =>
    "unexpected character '" ++ found.toString ++ "' at offset " ++ toString offset ++
      " in descriptor '" ++ d ++ "'"
  | .unexpectedEnd d => "descriptor '" ++ d ++ "' ends unexpectedly"
  | .unterminatedReference d => "unterminated class reference in descriptor '" ++ d ++ "'"
  | .trailing d offset =>
    "trailing characters after offset " ++ toString offset ++ " in descriptor '" ++ d ++ "'"
  | .notAMethod d => "'" ++ d ++ "' is not a method descriptor"

/-- Why a walk stopped, with the characters that were left. -/
inductive Stop where
  | unexpected (found : Char) (after : List Char)
  | ended
  | unterminated
  | trailing (rest : List Char)
  deriving DecidableEq, Repr

def utf8Length : List Char → Nat
  | [] => 0
  | c :: rest => c.utf8Size + utf8Length rest

/-- The number of bytes of `descriptor` before the characters that are left. -/
def offsetOf (descriptor : String) (rest : List Char) : Nat :=
  utf8Length descriptor.toList - utf8Length rest

def Stop.error (descriptor : String) : Stop → DescriptorError
  | .unexpected c after => .unexpectedChar descriptor (offsetOf descriptor (c :: after)) c
  | .ended => .unexpectedEnd descriptor
  | .unterminated => .unterminatedReference descriptor
  | .trailing rest => .trailing descriptor (offsetOf descriptor rest)

/-- The class name after an `L`, up to the semicolon that ends it. A reference that no semicolon
ends is unterminated, whatever its name holds. -/
def readName (cs : List Char) : Except Stop (BaseType × List Char) :=
  match cs.dropWhile isNameChar with
  | [] => .error .unterminated
  | c :: after =>
    if c = ';' then
      match cs.takeWhile isNameChar with
      | [] => .error (.unexpected c after)
      | name => .ok (.reference (.ofList name), after)
    else if ';' ∈ after then .error (.unexpected c after)
    else .error .unterminated

def readFieldType : List Char → Except Stop (FieldType × List Char)
  | [] => .error .ended
  | c :: rest =>
    if c = '[' then
      (readFieldType rest).map fun p => (⟨p.1.dimensions + 1, p.1.base⟩, p.2)
    else if c = 'L' then
      (readName rest).map fun p => (⟨0, p.1⟩, p.2)
    else
      match Primitive.ofCode? c with
      | some p => .ok (⟨0, .primitive p⟩, rest)
      | none => .error (.unexpected c rest)

theorem readName_shorter {cs rest : List Char} {b : BaseType} (h : readName cs = .ok (b, rest)) :
    rest.length < cs.length := by
  unfold readName at h
  split at h
  · simp at h
  · rename_i c after hd
    have hs : (c :: after).length ≤ cs.length := hd ▸ (List.dropWhile_sublist _).length_le
    simp only [List.length_cons] at hs
    split at h
    · split at h
      · simp at h
      · simp only [Except.ok.injEq, Prod.mk.injEq] at h
        obtain ⟨-, rfl⟩ := h
        omega
    · split at h <;> simp at h

theorem readFieldType_shorter {cs rest : List Char} {t : FieldType}
    (h : readFieldType cs = .ok (t, rest)) : rest.length < cs.length := by
  induction cs generalizing t with
  | nil => simp [readFieldType] at h
  | cons c cs ih =>
    unfold readFieldType at h
    split at h
    · cases hr : readFieldType cs with
      | error e => simp [hr, Except.map] at h
      | ok p =>
        simp only [hr, Except.map, Except.ok.injEq, Prod.mk.injEq] at h
        obtain ⟨-, rfl⟩ := h
        have := ih (t := p.1) hr
        simp only [List.length_cons]
        omega
    · split at h
      · cases hr : readName cs with
        | error e => simp [hr, Except.map] at h
        | ok p =>
          simp only [hr, Except.map, Except.ok.injEq, Prod.mk.injEq] at h
          obtain ⟨-, rfl⟩ := h
          have := readName_shorter (b := p.1) hr
          simp only [List.length_cons]
          omega
      · split at h <;> simp at h
        obtain ⟨-, rfl⟩ := h
        simp

end MixinNaming
