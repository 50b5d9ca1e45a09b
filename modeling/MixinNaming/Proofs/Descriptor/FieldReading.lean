import MixinNaming.Proofs.Descriptor.Tree
/-! What a field descriptor spells once it has been read: the characters that were consumed are the
rendering of the type, and every class name in it is legal. -/
namespace MixinNaming

variable {cs rest : List Char}

/-- A text is all name, or a first character that no name holds ends the name. -/
theorem name_or_end (cs : List Char) :
    (∀ d ∈ cs, isNameChar d = true) ∨ ∃ name c after, cs = name ++ c :: after ∧
      (∀ d ∈ name, isNameChar d = true) ∧ isNameChar c = false := by
  induction cs with
  | nil => exact .inl (by simp)
  | cons c cs ih =>
    by_cases hc : isNameChar c = true
    · rcases ih with hall | ⟨name, last, after, rfl, hname, hlast⟩
      · exact .inl (List.forall_mem_cons.2 ⟨hc, hall⟩)
      · exact .inr ⟨c :: name, last, after, rfl, List.forall_mem_cons.2 ⟨hc, hname⟩, hlast⟩
    · exact .inr ⟨[], c, cs, rfl, by simp, by simpa using hc⟩

theorem readName_of_all (h : ∀ d ∈ cs, isNameChar d = true) :
    readName cs = .error .unterminated := by
  have hdrop : (cs ++ []).dropWhile isNameChar = [] := List.dropWhile_append_of_pos h
  rw [List.append_nil] at hdrop
  rw [readName, hdrop]

/-- Everything depends on the character that ends the name. -/
theorem readName_of_end {name : List Char} {c : Char} (hname : ∀ d ∈ name, isNameChar d = true)
    (hc : isNameChar c = false) (after : List Char) :
    readName (name ++ c :: after) =
      if c = ';' then
        if name = [] then .error (.unexpected c after)
        else .ok (.reference (.ofList name), after)
      else if ';' ∈ after then .error (.unexpected c after)
      else .error .unterminated := by
  have htake : (name ++ c :: after).takeWhile isNameChar = name := by
    rw [List.takeWhile_append_of_pos hname, List.takeWhile_cons_of_neg (by simp [hc]),
      List.append_nil]
  have hdrop : (name ++ c :: after).dropWhile isNameChar = c :: after := by
    rw [List.dropWhile_append_of_pos hname, List.dropWhile_cons_of_neg (by simp [hc])]
  rw [readName, hdrop, htake]
  cases name <;> rfl

theorem chars_of_readName {b : BaseType} (h : readName cs = .ok (b, rest)) :
    b.Legal ∧ 'L' :: cs = b.chars ++ rest := by
  rcases name_or_end cs with hall | ⟨name, c, after, rfl, hname, hc⟩
  · rw [readName_of_all hall] at h
    cases h
  · rw [readName_of_end hname hc] at h
    split at h
    · next hsemi =>
      split at h
      · cases h
      · next hne =>
        obtain ⟨rfl, rfl⟩ := Prod.mk.inj (Except.ok.inj h)
        refine ⟨⟨?_, ?_⟩, ?_⟩
        · rwa [String.toList_ofList]
        · rwa [String.toList_ofList]
        · rw [BaseType.chars, String.toList_ofList, ← hsemi]
          simp
    · split at h <;> cases h

theorem chars_of_readFieldType {t : FieldType} (h : readFieldType cs = .ok (t, rest)) :
    t.Legal ∧ cs = t.chars ++ rest := by
  induction cs generalizing t with
  | nil => cases h
  | cons c cs ih =>
    rw [readFieldType] at h
    split at h
    · rename_i hc
      cases hr : readFieldType cs with
      | error e =>
        rw [hr] at h
        cases h
      | ok p =>
        rw [hr] at h
        obtain ⟨rfl, rfl⟩ := Prod.mk.inj (Except.ok.inj h)
        obtain ⟨hlegal, hcs⟩ := ih hr
        refine ⟨hlegal, ?_⟩
        rw [hc, hcs, FieldType.chars, FieldType.chars, List.replicate_succ]
        rfl
    · split at h
      · rename_i hc
        cases hr : readName cs with
        | error e =>
          rw [hr] at h
          cases h
        | ok p =>
          rw [hr] at h
          obtain ⟨rfl, rfl⟩ := Prod.mk.inj (Except.ok.inj h)
          rw [hc]
          exact chars_of_readName hr
      · split at h
        · rename_i p hp
          obtain ⟨rfl, rfl⟩ := Prod.mk.inj (Except.ok.inj h)
          refine ⟨trivial, ?_⟩
          rw [FieldType.chars, BaseType.chars, Primitive.code_of_ofCode? hp]
          rfl
        · cases h

theorem chars_of_readLast {t : FieldType} (h : (readLast cs).outcome = .ok t) :
    t.Legal ∧ cs = t.chars := by
  rw [readLast] at h
  split at h
  · cases h
  · rename_i u hr
    obtain rfl := Except.ok.inj h
    simpa using chars_of_readFieldType hr
  · cases h

/-- A parenthesis is a letter of no type. -/
theorem paren_notMem_chars {t : FieldType} (h : t.Legal) {c : Char} (hc : c = '(' ∨ c = ')') :
    c ∉ t.chars := by
  obtain ⟨dimensions, base⟩ := t
  intro hm
  have hletter : c ≠ '[' ∧ c ≠ 'L' ∧ c ≠ ';' ∧ isNameChar c = false := by
    rcases hc with rfl | rfl <;> decide
  rcases List.mem_append.1 hm with hm | hm
  · exact hletter.1 (List.eq_of_mem_replicate hm)
  · cases base with
    | primitive p =>
      have hcode := List.mem_singleton.1 hm
      rcases hc with rfl | rfl <;> cases p <;> cases hcode
    | reference name =>
      simp only [BaseType.chars, List.mem_cons, List.mem_append, List.not_mem_nil, or_false] at hm
      rcases hm with hm | hm | hm
      · exact hletter.2.1 hm
      · have hname := h.2 c hm
        rw [hletter.2.2.2] at hname
        cases hname
      · exact hletter.2.2.1 hm

/-- A field descriptor holds no parenthesis at all. -/
theorem paren_notMem_of_validate {d : String} (h : Descriptor.validate d = .ok ())
    (hd : Descriptor.isMethod d = false) : '(' ∉ d.toList := by
  rw [Descriptor.validate_eq] at h
  unfold Descriptor.parse at h
  split at h
  · cases h
  · unfold readDescriptor at h
    split at h
    · cases h
    · rename_i c cs hcs
      have hc : c ≠ '(' := by
        intro hc
        rw [Descriptor.isMethod, hcs, hc] at hd
        cases hd
      rw [if_neg hc] at h
      cases hr : (readLast (c :: cs)).outcome with
      | error e =>
        simp only [Reading.map, hr] at h
        cases h
      | ok t =>
        obtain ⟨hlegal, hchars⟩ := chars_of_readLast hr
        rw [hcs, hchars]
        exact paren_notMem_chars hlegal (.inl rfl)

end MixinNaming
