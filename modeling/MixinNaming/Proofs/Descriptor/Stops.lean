import MixinNaming.Proofs.Descriptor.Grammar
/-! Where a walk over a descriptor stops. A walk over a part of a text stops where the text as a
whole goes wrong, as long as nothing around the part could have been read in its place. So the place
is known for types and carries over to the arguments and to the result of a method; the result is
the one part that may be read in two ways, as void or as a type. -/
namespace MixinNaming

variable {cs : List Char} {whole part : List Char → Prop} {stop : Stop}

/-- A text of the kind stands at the front. -/
def Begins (whole : List Char → Prop) (cs : List Char) : Prop :=
  ∃ front rest, whole front ∧ cs = front ++ rest

/-- The stop is where the text leaves the kind. What stands before an unexpected character can be
completed and, once this character follows, begins with no text of the kind; at the end more text is
missing; what stands before trailing text is complete. -/
def Stop.Locates (whole : List Char → Prop) (cs : List Char) : Stop → Prop
  | .unexpected c after => ∃ before, cs = before ++ c :: after ∧
      (∃ more, whole (before ++ more)) ∧ ∀ more, ¬Begins whole (before ++ c :: more)
  | .ended => ∃ more, more ≠ [] ∧ whole (cs ++ more)
  | .unterminated => True
  | .trailing rest => rest ≠ [] ∧ ∃ before, cs = before ++ rest ∧ whole before

/-- A stop inside of a part is one inside of the text around it. -/
theorem Stop.Locates.within (lead tail : List Char) (h : stop.Locates part cs)
    (htail : tail = [] ∨ ∀ rest, stop ≠ .trailing rest)
    (hclose : ∀ text, part text → whole (lead ++ text ++ tail))
    (hopen : ∀ text, text.head? = cs.head? → Begins whole (lead ++ text) → Begins part text) :
    stop.Locates whole (lead ++ cs) := by
  cases stop with
  | unexpected c after =>
    obtain ⟨before, rfl, ⟨more, hmore⟩, hnone⟩ := h
    refine ⟨lead ++ before, by simp, ⟨more ++ tail, by simpa using hclose _ hmore⟩, ?_⟩
    intro others hbegins
    rw [List.append_assoc] at hbegins
    exact hnone others (hopen _ (by cases before <;> rfl) hbegins)
  | ended =>
    obtain ⟨more, hne, hmore⟩ := h
    exact ⟨more ++ tail, by simp [hne], by simpa using hclose _ hmore⟩
  | unterminated => trivial
  | trailing rest =>
    obtain rfl := htail.resolve_right fun hstop => hstop rest rfl
    obtain ⟨hne, before, rfl, hbefore⟩ := h
    exact ⟨hne, lead ++ before, by simp, by simpa using hclose _ hbefore⟩

section Types

def IsType (cs : List Char) : Prop := ∃ t : FieldType, t.Legal ∧ cs = t.chars

theorem begins_isType_iff : Begins IsType cs ↔ ∃ p, readFieldType cs = .ok p := by
  constructor
  · rintro ⟨front, rest, ⟨t, ht, rfl⟩, rfl⟩
    exact ⟨(t, rest), readFieldType_append ht rest⟩
  · rintro ⟨⟨t, rest⟩, hread⟩
    obtain ⟨ht, hcs⟩ := chars_of_readFieldType hread
    exact ⟨t.chars, rest, ⟨t, ht, rfl⟩, hcs⟩

/-- A name is stopped by the first character that no name holds. Whatever else follows this
character, the name is no better for it. -/
theorem readName_error (h : readName cs = .error stop) :
    stop = .unterminated ∨ ∃ name c after, stop = .unexpected c after ∧ cs = name ++ c :: after ∧
      (∀ d ∈ name, isNameChar d = true) ∧ ∀ more p, readName (name ++ c :: more) ≠ .ok p := by
  rcases name_or_end cs with hall | ⟨name, c, after, rfl, hname, hc⟩
  · rw [readName_of_all hall] at h
    exact .inl (Except.error.inj h).symm
  · rw [readName_of_end hname hc] at h
    split at h
    · next hsemi =>
      split at h
      · next hnil =>
        refine .inr ⟨name, c, after, (Except.error.inj h).symm, rfl, hname, fun more p hread => ?_⟩
        rw [readName_of_end hname hc, if_pos hsemi, if_pos hnil] at hread
        cases hread
      · cases h
    · next hsemi =>
      split at h
      · refine .inr ⟨name, c, after, (Except.error.inj h).symm, rfl, hname, fun more p hread => ?_⟩
        rw [readName_of_end hname hc, if_neg hsemi] at hread
        split at hread <;> cases hread
      · exact .inl (Except.error.inj h).symm

theorem isType_int : IsType ['I'] := ⟨⟨0, .primitive .int⟩, trivial, rfl⟩

/-- A name that is not over yet is completed by one more letter. -/
theorem isType_of_name {name : List Char} (h : ∀ d ∈ name, isNameChar d = true) :
    IsType ('L' :: (name ++ ['a', ';'])) := by
  refine ⟨⟨0, .reference (.ofList (name ++ ['a']))⟩, ⟨?_, ?_⟩, ?_⟩
  · simp
  · intro d hd
    rw [String.toList_ofList, List.mem_append, List.mem_singleton] at hd
    rcases hd with hd | rfl
    · exact h d hd
    · decide
  · simp [FieldType.chars, BaseType.chars]

theorem isType_array {text : List Char} (h : IsType text) : IsType ('[' :: text) := by
  obtain ⟨⟨dimensions, base⟩, ht, rfl⟩ := h
  refine ⟨⟨dimensions + 1, base⟩, ht, ?_⟩
  rw [FieldType.chars, FieldType.chars, List.replicate_succ, List.cons_append]

theorem begins_isType_array {text : List Char} (h : Begins IsType ('[' :: text)) :
    Begins IsType text := by
  rw [begins_isType_iff] at h ⊢
  obtain ⟨p, hread⟩ := h
  rw [readFieldType, if_pos rfl] at hread
  obtain ⟨q, hq, -⟩ := except_map_eq_ok.1 hread
  exact ⟨q, hq⟩

theorem readFieldType_locates (h : readFieldType cs = .error stop) :
    stop.Locates IsType cs ∧ ∀ rest, stop ≠ .trailing rest := by
  induction cs with
  | nil =>
    cases h
    exact ⟨⟨['I'], by simp, isType_int⟩, by simp⟩
  | cons c cs ih =>
    by_cases hc : c = '['
    · rw [readFieldType, if_pos hc, except_map_eq_error] at h
      obtain ⟨hlocates, hstop⟩ := ih h
      refine ⟨?_, hstop⟩
      rw [hc]
      refine hlocates.within ['['] [] (.inl rfl) (fun text ht => ?_) fun text _ hb => ?_
      · rw [List.append_nil]
        exact isType_array ht
      · exact begins_isType_array hb
    · by_cases hL : c = 'L'
      · rw [readFieldType, if_neg hc, if_pos hL, except_map_eq_error] at h
        rcases readName_error h with rfl | ⟨name, c', after, rfl, rfl, hname, hstuck⟩
        · exact ⟨trivial, by simp⟩
        · refine ⟨⟨c :: name, rfl, ⟨['a', ';'], ?_⟩, fun more hb => ?_⟩, by simp⟩
          · rw [hL]
            exact isType_of_name hname
          · rw [begins_isType_iff] at hb
            obtain ⟨p, hread⟩ := hb
            rw [List.cons_append, readFieldType, if_neg hc, if_pos hL] at hread
            obtain ⟨q, hq, -⟩ := except_map_eq_ok.1 hread
            exact hstuck more q hq
      · rw [readFieldType, if_neg hc, if_neg hL] at h
        split at h
        · cases h
        · next hcode =>
          cases h
          refine ⟨⟨[], rfl, ⟨['I'], isType_int⟩, fun more hb => ?_⟩, by simp⟩
          rw [begins_isType_iff] at hb
          obtain ⟨p, hread⟩ := hb
          rw [List.nil_append, readFieldType, if_neg hc, if_neg hL, hcode] at hread
          cases hread

theorem readLast_locates (h : (readLast cs).outcome = .error stop) : stop.Locates IsType cs := by
  rw [readLast] at h
  split at h
  · next hread =>
    cases h
    exact (readFieldType_locates hread).1
  · cases h
  · next t c rest hread =>
    cases h
    obtain ⟨ht, hcs⟩ := chars_of_readFieldType hread
    exact ⟨List.cons_ne_nil c rest, t.chars, hcs, t, ht, rfl⟩

end Types

section Methods

def IsDescriptor (cs : List Char) : Prop := ∃ d : Descriptor, d.Legal ∧ cs = d.chars

theorem exists_method_of_begins {text : List Char} (h : Begins IsDescriptor ('(' :: text)) :
    ∃ m : MethodType, (∀ t ∈ m.types, t.Legal) ∧ ∃ rest, text = m.tailChars ++ rest := by
  obtain ⟨front, rest, ⟨d, hd, rfl⟩, htext⟩ := h
  cases d with
  | field t =>
    obtain ⟨c, cs, hcs, hc, -⟩ := t.chars_eq_cons (Descriptor.legal_field.1 hd)
    rw [Descriptor.chars, hcs, List.cons_append] at htext
    exact absurd (List.cons.inj htext).1.symm hc
  | method m => exact ⟨m, hd, rest, (List.cons.inj htext).2⟩

theorem exists_field_of_begins {text : List Char} (h : Begins IsDescriptor text)
    (hopen : text.head? ≠ some '(') : Begins IsType text := by
  obtain ⟨front, rest, ⟨d, hd, rfl⟩, rfl⟩ := h
  cases d with
  | field t => exact ⟨t.chars, rest, ⟨t, Descriptor.legal_field.1 hd, rfl⟩, rfl⟩
  | method m => exact absurd rfl hopen

/-- Where the walk over the arguments stops: behind some types, at a place where no further type
begins and where the arguments are not closed. -/
theorem readArguments_stopped {arguments : List FieldType}
    (h : readArguments cs = (arguments, .error stop)) :
    (∀ t ∈ arguments, t.Legal) ∧ ∃ left, cs = arguments.flatMap FieldType.chars ++ left ∧
      left.head? ≠ some ')' ∧ readFieldType left = .error stop := by
  induction cs using readArguments_induction generalizing arguments with
  | nil =>
    rw [readArguments] at h
    cases h
    exact ⟨by simp, [], rfl, by simp, rfl⟩
  | close rest =>
    rw [readArguments_close] at h
    cases h
  | fail c tail e hc hread =>
    rw [readArguments_fail hc hread] at h
    cases h
    exact ⟨by simp, c :: tail, rfl, by simpa using hc, hread⟩
  | type c tail t left hc hread ih =>
    rw [readArguments_type hc hread] at h
    obtain ⟨rfl, hmore⟩ := Prod.mk.inj h
    obtain ⟨ht, hcs⟩ := chars_of_readFieldType hread
    obtain ⟨hlegal, place, hleft, hplace⟩ := ih (Prod.ext rfl hmore)
    refine ⟨List.forall_mem_cons.2 ⟨ht, hlegal⟩, place, ?_, hplace⟩
    rw [List.flatMap_cons, List.append_assoc, ← hleft]
    exact hcs

/-- What follows some arguments and does not close them begins with one more. -/
theorem begins_argument {arguments : List FieldType} {text : List Char}
    (harguments : ∀ t ∈ arguments, t.Legal)
    (h : Begins IsDescriptor ('(' :: (arguments.flatMap FieldType.chars ++ text)))
    (hclose : text.head? ≠ some ')') : Begins IsType text := by
  obtain ⟨m, hm, rest, htext⟩ := exists_method_of_begins h
  rw [MethodType.tailChars, List.append_assoc, List.cons_append] at htext
  have hread := readArguments_append (MethodType.forall_types.1 hm).1 (resultChars m.result ++ rest)
  rw [← htext, readArguments_types harguments] at hread
  have hclosed := (Prod.mk.inj hread).2
  rw [begins_isType_iff]
  cases text with
  | nil =>
    rw [readArguments] at hclosed
    cases hclosed
  | cons c tail =>
    have hc : c ≠ ')' := by simpa using hclose
    cases htype : readFieldType (c :: tail) with
    | ok p => exact ⟨p, rfl⟩
    | error e =>
      rw [readArguments_fail hc htype] at hclosed
      cases hclosed

def OpensResult (lead : List Char) : Prop :=
  ∃ arguments : List FieldType, (∀ t ∈ arguments, t.Legal) ∧
    lead = '(' :: (arguments.flatMap FieldType.chars ++ [')'])

theorem OpensResult.isDescriptor {lead : List Char} (h : OpensResult lead)
    (result : Option FieldType) (hresult : ∀ t ∈ result, t.Legal) :
    IsDescriptor (lead ++ resultChars result) := by
  obtain ⟨arguments, harguments, rfl⟩ := h
  refine ⟨.method ⟨arguments, result⟩, MethodType.forall_types.2 ⟨harguments, hresult⟩, ?_⟩
  simp [Descriptor.chars, MethodType.chars]

theorem exists_last_char (t : FieldType) : ∃ c, t.chars.getLast? = some c ∧ c ≠ 'V' := by
  obtain ⟨dimensions, base⟩ := t
  rw [FieldType.chars, List.getLast?_append]
  cases base with
  | primitive p => exact ⟨p.code, rfl, by cases p <;> decide⟩
  | reference name => exact ⟨';', by simp [BaseType.chars, List.getLast?_cons], by decide⟩

/-- Only a method without a result type ends in the letter of void. -/
theorem opensResult_iff {lead : List Char} :
    OpensResult lead ↔ IsDescriptor (lead ++ ['V']) := by
  constructor
  · intro h
    exact h.isDescriptor none (by simp)
  · rintro ⟨d, hd, hchars⟩
    have hlast : d.chars.getLast? = some 'V' := by rw [← hchars, List.getLast?_concat]
    cases d with
    | field t =>
      obtain ⟨c, hc, hV⟩ := exists_last_char t
      exact absurd (Option.some.inj (hc.symm.trans hlast)) hV
    | method m =>
      obtain ⟨arguments, result⟩ := m
      have hlegal := (MethodType.forall_types.1 hd).1
      cases result with
      | none =>
        refine ⟨arguments, hlegal, (List.append_left_inj ['V']).1 ?_⟩
        simpa [Descriptor.chars, MethodType.chars, resultChars] using hchars
      | some t =>
        obtain ⟨c, hc, hV⟩ := exists_last_char t
        have hresult : (Descriptor.method ⟨arguments, some t⟩).chars =
            ('(' :: (arguments.flatMap FieldType.chars ++ [')'])) ++ t.chars := by
          simp [Descriptor.chars, MethodType.chars, resultChars]
        rw [hresult, List.getLast?_append, hc] at hlast
        exact absurd (Option.some.inj hlast) hV

/-- Text after a void result is blamed on the result. -/
theorem readDescriptor_of_overrun {lead after : List Char} (h : OpensResult lead)
    (hafter : after ≠ []) :
    (readDescriptor (lead ++ 'V' :: after)).outcome = .error (.unexpected 'V' after) := by
  obtain ⟨arguments, harguments, rfl⟩ := h
  have hne : 'V' :: after ≠ ['V'] := by simpa using hafter
  have hcs : ('(' :: (arguments.flatMap FieldType.chars ++ [')'])) ++ 'V' :: after =
      '(' :: (arguments.flatMap FieldType.chars ++ ')' :: 'V' :: after) := by simp
  rw [hcs, readDescriptor, if_pos rfl, readMethod, readArguments_append harguments]
  dsimp only
  rw [readResult, if_neg hne, readLast]
  rfl

/-- What stands in the place of a result and does not begin like void begins with a type. -/
theorem OpensResult.begins_isType {lead text : List Char} (h : OpensResult lead)
    (hbegins : Begins IsDescriptor (lead ++ text)) (hvoid : text.head? ≠ some 'V') :
    Begins IsType text := by
  obtain ⟨arguments, harguments, rfl⟩ := h
  simp only [List.cons_append, List.append_assoc, List.nil_append] at hbegins
  obtain ⟨m, hm, rest, htext⟩ := exists_method_of_begins hbegins
  rw [MethodType.tailChars, List.append_assoc, List.cons_append] at htext
  obtain ⟨hlegal, hresult⟩ := MethodType.forall_types.1 hm
  have hread := readArguments_append harguments text
  have hplace := readArguments_append hlegal (resultChars m.result ++ rest)
  rw [← htext] at hplace
  obtain rfl := Except.ok.inj (Prod.mk.inj (hread.symm.trans hplace)).2
  cases hr : m.result with
  | none =>
    rw [hr] at hvoid
    exact absurd rfl hvoid
  | some t => exact ⟨t.chars, rest, ⟨t, hresult t hr, rfl⟩, rfl⟩

theorem locates_argument {arguments : List FieldType} {left : List Char}
    (harguments : ∀ t ∈ arguments, t.Legal) (hclose : left.head? ≠ some ')')
    (h : readFieldType left = .error stop) :
    stop.Locates IsDescriptor ('(' :: (arguments.flatMap FieldType.chars ++ left)) := by
  obtain ⟨hlocates, hstop⟩ := readFieldType_locates h
  refine hlocates.within ('(' :: arguments.flatMap FieldType.chars) [')', 'V'] (.inr hstop) ?_ ?_
  · rintro text ⟨t, ht, rfl⟩
    have hopens : OpensResult ('(' :: ((arguments ++ [t]).flatMap FieldType.chars ++ [')'])) :=
      ⟨arguments ++ [t], by simpa [or_imp, forall_and] using ⟨harguments, ht⟩, rfl⟩
    simpa using opensResult_iff.1 hopens
  · intro text hhead hbegins
    exact begins_argument harguments hbegins (by rwa [hhead])

theorem OpensResult.locates {lead rest : List Char} (h : OpensResult lead)
    (hvoid : rest.head? ≠ some 'V') (hread : (readResult rest).outcome = .error stop) :
    stop.Locates IsDescriptor (lead ++ rest) := by
  have hne : rest ≠ ['V'] := by
    rintro rfl
    exact hvoid rfl
  rw [readResult, if_neg hne] at hread
  refine (readLast_locates (except_map_eq_error.1 hread)).within lead [] (.inl rfl) ?_ ?_
  · rintro text ⟨t, ht, rfl⟩
    rw [List.append_nil]
    refine h.isDescriptor (some t) fun u hu => ?_
    obtain rfl := Option.some.inj hu
    exact ht
  · intro text hhead hbegins
    exact h.begins_isType hbegins (by rwa [hhead])

theorem readMethod_locates (h : (readMethod cs).outcome = .error stop)
    (hvoid : ∀ lead after, OpensResult lead → '(' :: cs = lead ++ 'V' :: after → after = []) :
    stop.Locates IsDescriptor ('(' :: cs) := by
  rw [readMethod] at h
  split at h
  · next arguments e hread =>
    cases h
    obtain ⟨harguments, left, rfl, hclose, hleft⟩ := readArguments_stopped hread
    exact locates_argument harguments hclose hleft
  · next arguments rest hread =>
    obtain ⟨harguments, rfl⟩ := chars_of_readArguments hread
    have hresult : (readResult rest).outcome = .error stop := except_map_eq_error.1 h
    have hopens : OpensResult ('(' :: (arguments.flatMap FieldType.chars ++ [')'])) :=
      ⟨arguments, harguments, rfl⟩
    have hlead : '(' :: (arguments.flatMap FieldType.chars ++ ')' :: rest) =
        '(' :: (arguments.flatMap FieldType.chars ++ [')']) ++ rest := by simp
    rw [hlead]
    refine hopens.locates (fun hV => ?_) hresult
    obtain ⟨after, rfl⟩ := List.head?_eq_some_iff.1 hV
    -- nothing follows the void result, so there was nothing to stop at
    obtain rfl := hvoid _ after hopens hlead
    rw [readResult, if_pos rfl] at hresult
    cases hresult

theorem readDescriptor_locates (h : (readDescriptor cs).outcome = .error stop) (hcs : cs ≠ [])
    (hvoid : ∀ lead after, OpensResult lead → cs = lead ++ 'V' :: after → after = []) :
    stop.Locates IsDescriptor cs := by
  cases cs with
  | nil => exact absurd rfl hcs
  | cons c tail =>
    by_cases hc : c = '('
    · subst hc
      rw [readDescriptor, if_pos rfl] at h
      exact readMethod_locates (except_map_eq_error.1 h) hvoid
    · rw [readDescriptor, if_neg hc] at h
      refine (readLast_locates (except_map_eq_error.1 h)).within [] [] (.inl rfl) ?_ ?_
      · rintro text ⟨t, ht, rfl⟩
        rw [List.nil_append, List.append_nil]
        exact ⟨.field t, Descriptor.legal_field.2 ht, rfl⟩
      · intro text htext hbegins
        refine exists_field_of_begins hbegins ?_
        rw [htext]
        simpa using hc

end Methods

end MixinNaming
