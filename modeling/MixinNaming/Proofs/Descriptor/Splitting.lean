import Mathlib.Data.List.Basic
import MixinNaming.Proofs.Descriptor.Grammar
/-! Taking a method descriptor apart and putting it together. The walk that cuts the text stops
where the walk that reads it does, and the parts are the renderings of the argument types and of the
result. Other parts may make up the same text, but they cannot move the closing parenthesis, so at
most the arguments are cut in another way. -/
namespace MixinNaming

section Cutting

theorem cutFieldType_eq (cs : List Char) :
    cutFieldType cs = (readFieldType cs).map fun p => (p.1.chars, p.2) := by
  rw [cutFieldType]
  cases hread : readFieldType cs with
  | error e => rfl
  | ok p =>
    obtain ⟨t, rest⟩ := p
    obtain ⟨-, rfl⟩ := chars_of_readFieldType hread
    simp [Except.map]

/-- Both walks over the arguments go on with what the same type leaves of the text. -/
theorem cutArguments_eq (cs : List Char) :
    cutArguments cs =
      (readArguments cs).2.map fun rest => ((readArguments cs).1.map FieldType.chars, rest) := by
  induction cs using readArguments_induction with
  | nil =>
    rw [cutArguments, readArguments]
    rfl
  | close rest =>
    rw [cutArguments, if_pos rfl, readArguments_close]
    rfl
  | fail c tail e hc hread =>
    have hcut := cutFieldType_eq (c :: tail)
    rw [hread] at hcut
    rw [cutArguments, if_neg hc, readArguments_fail hc hread]
    split
    · next he =>
      cases hcut.symm.trans he
      rfl
    · next he => cases hcut.symm.trans he
  | type c tail t left hc hread ih =>
    have hcut := cutFieldType_eq (c :: tail)
    rw [hread] at hcut
    rw [cutArguments, if_neg hc, readArguments_type hc hread]
    split
    · next he => cases hcut.symm.trans he
    · next he =>
      cases hcut.symm.trans he
      rw [ih]
      cases (readArguments left).2 <;> rfl

theorem cutResult_eq (cs : List Char) :
    cutResult cs = (readResult cs).outcome.map resultChars := by
  rw [cutResult, readResult]
  split
  · next hvoid =>
    rw [hvoid]
    rfl
  · rw [cutFieldType_eq, readLast]
    cases hread : readFieldType cs with
    | error e => rfl
    | ok p =>
      obtain ⟨t, rest⟩ := p
      obtain ⟨-, hcs⟩ := chars_of_readFieldType hread
      cases rest with
      | nil =>
        rw [List.append_nil] at hcs
        rw [hcs]
        rfl
      | cons c rest => rfl

/-- Cutting a method apart goes wrong where reading it does, and the pieces are what was read. -/
theorem cutMethod_eq (cs : List Char) :
    cutMethod cs = (readMethod cs).outcome.map fun m =>
      (m.arguments.map FieldType.chars, resultChars m.result) := by
  rw [cutMethod, cutArguments_eq, readMethod]
  cases hread : readArguments cs with
  | mk arguments outcome =>
    cases outcome with
    | error e => rfl
    | ok rest =>
      change (cutResult rest).map _ = ((readResult rest).outcome.map _).map _
      rw [cutResult_eq]
      cases (readResult rest).outcome <;> rfl

end Cutting

theorem paren_notMem_resultChars {result : Option FieldType} (h : ∀ t ∈ result, t.Legal) :
    ')' ∉ resultChars result := by
  cases result with
  | none => decide
  | some t => exact paren_notMem_chars (h t rfl) (.inr rfl)

/-- Void is the result of no method that has one. -/
theorem resultChars_eq_void {result : Option FieldType} (h : ∀ t ∈ result, t.Legal) :
    resultChars result = ['V'] ↔ result = none := by
  cases result with
  | none => simp [resultChars]
  | some t =>
    obtain ⟨c, cs, hcs, -, -, hc⟩ := t.chars_eq_cons (h t rfl)
    simp [resultChars, hcs, hc]

theorem renderResult_eq_void {m : MethodType} (h : ∀ u ∈ m.types, u.Legal) :
    m.renderResult = "V" ↔ m.result = none := by
  rw [← resultChars_eq_void (MethodType.forall_types.1 h).2, MethodType.renderResult,
    String.ext_iff, String.toList_ofList]
  exact Iff.rfl

theorem flatMap_chars_eq_nil {types : List FieldType} (h : ∀ t ∈ types, t.Legal) :
    types.flatMap FieldType.chars = [] ↔ types = [] := by
  cases types with
  | nil => simp
  | cons t rest =>
    obtain ⟨c, cs, hcs, -⟩ := t.chars_eq_cons (h t List.mem_cons_self)
    simp [hcs]

namespace Descriptor

variable {d result : String} {arguments : List String} {m : MethodType}

theorem split_method {cs : List Char} (h : d.toList = '(' :: cs) :
    split d = ((readMethod cs).outcome.mapError (Stop.error d)).map fun m =>
      (m.arguments.map FieldType.render, m.renderResult) := by
  rw [split, h]
  simp only [cutMethod_eq]
  cases (readMethod cs).outcome with
  | error e => rfl
  | ok m =>
    simp only [Except.map, Except.mapError, List.map_map]
    rfl

/-- Cutting apart and checking succeed on the same methods, and they fail with the same error. -/
theorem map_split (h : isMethod d = true) : (split d).map (fun _ => ()) = validate d := by
  obtain ⟨cs, hcs⟩ := isMethod_iff.1 h
  rw [split_method hcs, validate_eq, parse, hcs, if_neg (List.cons_ne_nil _ _), readDescriptor,
    if_pos rfl, Reading.map]
  cases (readMethod cs).outcome <;> rfl

theorem split_field (h : isMethod d = false) : split d = .error (.notAMethod d) := by
  rw [split]
  split
  · next cs hcs =>
    rw [isMethod_iff.2 ⟨cs, hcs⟩] at h
    cases h
  · rfl

theorem split_eq_ok_iff : split d = .ok (arguments, result) ↔
    ∃ m : MethodType, (∀ t ∈ m.types, t.Legal) ∧ (method m).render = d ∧
      m.arguments.map FieldType.render = arguments ∧ m.renderResult = result := by
  constructor
  · intro h
    cases hmethod : isMethod d with
    | false =>
      rw [split_field hmethod] at h
      cases h
    | true =>
      obtain ⟨cs, hcs⟩ := isMethod_iff.1 hmethod
      rw [split_method hcs, except_map_eq_ok] at h
      obtain ⟨m, hm, hparts⟩ := h
      obtain ⟨hlegal, htail⟩ := chars_of_readMethod (except_mapError_eq_ok.1 hm)
      obtain ⟨rfl, rfl⟩ := Prod.mk.inj hparts
      refine ⟨m, hlegal, ?_, rfl, rfl⟩
      rw [render, chars, MethodType.chars, ← MethodType.tailChars, ← htail, ← hcs,
        String.ofList_toList]
  · rintro ⟨m, hlegal, rfl, rfl, rfl⟩
    have hchars : (method m).render.toList = '(' :: m.tailChars := by
      rw [render, String.toList_ofList]
      rfl
    rw [split_method hchars, readMethod_eq_ok hlegal]
    rfl

theorem toList_build : (build arguments result).toList =
    '(' :: (arguments.flatMap String.toList ++ ')' :: result.toList) := by
  simp [build]

/-- Parts make up a legal method descriptor if together they are its arguments and its result. -/
theorem build_eq_render_iff (h : ∀ t ∈ m.types, t.Legal) :
    build arguments result = (method m).render ↔
      arguments.flatMap String.toList = m.arguments.flatMap FieldType.chars ∧
        result = m.renderResult := by
  obtain ⟨harguments, hresult⟩ := MethodType.forall_types.1 h
  have hclose : ')' ∉ m.arguments.flatMap FieldType.chars := by
    intro hmem
    obtain ⟨t, ht, hc⟩ := List.mem_flatMap.1 hmem
    exact paren_notMem_chars (harguments t ht) (.inr rfl) hc
  have hlast := paren_notMem_resultChars hresult
  rw [String.ext_iff, toList_build, render, String.toList_ofList, chars, MethodType.chars,
    List.cons.injEq, eq_comm (a := arguments.flatMap _ ++ _),
    List.append_cons_inj_of_notMem hclose hlast, String.ext_iff, MethodType.renderResult,
    String.toList_ofList]
  simp only [true_and, eq_comm]

/-- What a method descriptor is split into makes it up again. -/
theorem build_of_split (h : split d = .ok (arguments, result)) : build arguments result = d := by
  obtain ⟨m, hlegal, rfl, rfl, rfl⟩ := split_eq_ok_iff.1 h
  refine (build_eq_render_iff hlegal).2 ⟨?_, rfl⟩
  simp only [List.flatMap_map, FieldType.render, String.toList_ofList]

theorem split_render (h : ∀ t ∈ m.types, t.Legal) :
    split (method m).render = .ok (m.arguments.map FieldType.render, m.renderResult) :=
  split_eq_ok_iff.2 ⟨m, h, rfl, rfl, rfl⟩

end Descriptor

end MixinNaming
