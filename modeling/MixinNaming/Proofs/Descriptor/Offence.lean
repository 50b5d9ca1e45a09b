import MixinNaming.Proofs.Descriptor.Splitting
import MixinNaming.Proofs.Descriptor.Stops
/-! The places that errors name. What stands before an unexpected character can still be completed
to a descriptor, and together with the character it cannot; what stands before trailing text is a
descriptor; a text that ends unexpectedly lacks nothing but more text. Only text behind a void
result is reported at another place. -/
namespace MixinNaming

section Offsets

theorem utf8Length_eq (cs : List Char) : utf8Length cs = (String.ofList cs).utf8ByteSize := by
  induction cs with
  | nil => rfl
  | cons c cs ih =>
    rw [utf8Length, ih, String.ofList_cons, String.utf8ByteSize_append,
      String.utf8ByteSize_singleton]

theorem offsetOf_eq {d : String} {before rest : List Char} (h : d.toList = before ++ rest) :
    offsetOf d rest = (String.ofList before).utf8ByteSize := by
  have hsize : utf8Length d.toList = (String.ofList before).utf8ByteSize + utf8Length rest := by
    rw [h, utf8Length_eq, utf8Length_eq, String.ofList_append, String.utf8ByteSize_append]
  rw [offsetOf]
  omega

theorem gap_eq_nil {shorter longer : String} {gap : List Char}
    (h : longer.toList = shorter.toList ++ gap)
    (hsize : longer.utf8ByteSize = shorter.utf8ByteSize) : gap = [] := by
  have hlonger := congrArg String.ofList h
  rw [String.ofList_append, String.ofList_toList, String.ofList_toList] at hlonger
  rw [hlonger, String.utf8ByteSize_append] at hsize
  have hzero : (String.ofList gap).utf8ByteSize = 0 := by omega
  rw [String.utf8ByteSize_eq_zero_iff] at hzero
  simpa using congrArg String.toList hzero

/-- A place in a text is known from its offset. -/
theorem eq_of_utf8ByteSize_eq {before other after rest : String}
    (h : before ++ after = other ++ rest) (hsize : before.utf8ByteSize = other.utf8ByteSize) :
    before = other := by
  have hlists := String.toList_inj.2 h
  rw [String.toList_append, String.toList_append, List.append_eq_append_iff] at hlists
  rw [← String.toList_inj]
  rcases hlists with ⟨gap, hother, -⟩ | ⟨gap, hbefore, -⟩
  · obtain rfl := gap_eq_nil hother hsize.symm
    rw [hother, List.append_nil]
  · obtain rfl := gap_eq_nil hbefore hsize
    rw [hbefore, List.append_nil]

end Offsets

namespace Descriptor

def Viable (s : String) : Prop := ∃ more, validate (s ++ more) = .ok ()

/-- The error says where the text leaves the grammar. An offset counts the UTF-8 bytes of what
stands before it. -/
def LocatesOffence (d : String) : DescriptorError → Prop
  | .unexpectedChar text offset found => text = d ∧ ∃ before after,
      d = before ++ String.singleton found ++ after ∧ offset = before.utf8ByteSize ∧
        Viable before ∧ ¬Viable (before ++ String.singleton found)
  | .unexpectedEnd text => text = d ∧ ∃ more, more ≠ "" ∧ validate (d ++ more) = .ok ()
  | .trailing text offset => text = d ∧ ∃ before after, d = before ++ after ∧
      offset = before.utf8ByteSize ∧ validate before = .ok () ∧ after ≠ ""
  | .empty | .unterminatedReference _ | .notAMethod _ => True

/-- A method whose result is void, and more text behind it. -/
structure OverrunsVoid (d before after : String) : Prop where
  text : d = before ++ "V" ++ after
  accepted : validate (before ++ "V") = .ok ()
  more : after ≠ ""

theorem validate_iff_isDescriptor {d : String} : validate d = .ok () ↔ IsDescriptor d.toList := by
  rw [validate_eq_ok_iff]
  refine exists_congr fun t => and_congr_right fun _ => ?_
  rw [render, eq_comm, ← String.toList_inj, String.toList_ofList]

theorem validate_ofList {cs : List Char} (h : IsDescriptor cs) :
    validate (.ofList cs) = .ok () := by
  rwa [validate_iff_isDescriptor, String.toList_ofList]

theorem not_viable {text : List Char} (h : ∀ more, ¬Begins IsDescriptor (text ++ more)) :
    ¬Viable (.ofList text) := by
  rintro ⟨more, hmore⟩
  rw [validate_iff_isDescriptor, String.toList_append, String.toList_ofList] at hmore
  exact h more.toList ⟨_, [], hmore, (List.append_nil _).symm⟩

theorem locatesOffence_of_stop {d : String} {stop : Stop}
    (h : stop.Locates IsDescriptor d.toList) : LocatesOffence d (stop.error d) := by
  cases stop with
  | unexpected c after =>
    obtain ⟨before, hd, ⟨more, hmore⟩, hnone⟩ := h
    refine ⟨rfl, .ofList before, .ofList after, ?_, offsetOf_eq hd, ⟨.ofList more, ?_⟩, ?_⟩
    · rw [← String.toList_inj, hd]
      simp
    · rw [← String.ofList_append]
      exact validate_ofList hmore
    · rw [String.singleton_eq_ofList, ← String.ofList_append]
      refine not_viable fun others => ?_
      rw [List.append_assoc]
      exact hnone others
  | ended =>
    obtain ⟨more, hne, hmore⟩ := h
    refine ⟨rfl, .ofList more, by simpa using hne, ?_⟩
    rwa [validate_iff_isDescriptor, String.toList_append, String.toList_ofList]
  | unterminated => trivial
  | trailing rest =>
    obtain ⟨hne, before, hd, hbefore⟩ := h
    refine ⟨rfl, .ofList before, .ofList rest, ?_, offsetOf_eq hd, validate_ofList hbefore, ?_⟩
    · rw [← String.toList_inj, hd]
      simp
    · simpa using hne

variable {d before after : String} {e : DescriptorError}

/-- Whichever walk fails, it fails as checking does, or it was asked to split a field. -/
theorem validate_eq_error (h : validate d = .error e ∨ (∃ f, mapClassNames f d = .error e) ∨
    split d = .error e) : validate d = .error e ∨ isMethod d = false ∧ e = .notAMethod d := by
  rcases h with h | ⟨f, h⟩ | h
  · exact .inl h
  · rw [mapClassNames_eq, except_map_eq_error] at h
    exact .inl ((validate_eq d).trans (except_map_eq_error.2 h))
  · cases hmethod : isMethod d with
    | false =>
      rw [split_field hmethod] at h
      exact .inr ⟨rfl, (Except.error.inj h).symm⟩
    | true => exact .inl ((map_split hmethod).symm.trans (except_map_eq_error.2 h))

theorem locatesOffence_of_validate (h : validate d = .error e)
    (hvoid : ∀ before after, ¬OverrunsVoid d before after) : LocatesOffence d e := by
  rw [validate_eq, except_map_eq_error, parse] at h
  split at h
  · obtain rfl := Except.error.inj h
    trivial
  · next hne =>
    cases hread : (readDescriptor d.toList).outcome with
    | ok t =>
      rw [hread] at h
      cases h
    | error stop =>
      rw [hread] at h
      obtain rfl := Except.error.inj h
      refine locatesOffence_of_stop (readDescriptor_locates hread hne fun lead after hlead hd => ?_)
      by_contra hafter
      refine hvoid (.ofList lead) (.ofList after) ⟨?_, ?_, by simpa using hafter⟩
      · rw [← String.toList_inj, hd]
        simp
      · rw [validate_iff_isDescriptor]
        simpa using opensResult_iff.1 hlead

theorem OverrunsVoid.opensResult (h : OverrunsVoid d before after) : OpensResult before.toList := by
  have haccepted := h.accepted
  rw [validate_iff_isDescriptor, String.toList_append] at haccepted
  exact opensResult_iff.2 haccepted

theorem OverrunsVoid.toList_eq (h : OverrunsVoid d before after) :
    d.toList = before.toList ++ 'V' :: after.toList := by
  rw [h.text, String.toList_append, String.toList_append, List.append_assoc]
  rfl

theorem OverrunsVoid.isMethod (h : OverrunsVoid d before after) :
    Descriptor.isMethod d = true := by
  obtain ⟨arguments, -, hbefore⟩ := h.opensResult
  rw [isMethod_iff, h.toList_eq, hbefore]
  exact ⟨_, rfl⟩

theorem OverrunsVoid.validate (h : OverrunsVoid d before after) :
    validate d = .error (.unexpectedChar d before.utf8ByteSize 'V') := by
  have hd := h.toList_eq
  have hafter : after.toList ≠ [] := by simpa using h.more
  have hread := readDescriptor_of_overrun h.opensResult hafter
  rw [← hd] at hread
  have hne : d.toList ≠ [] := by simp [hd]
  have hoffset : offsetOf d ('V' :: after.toList) = before.utf8ByteSize := by
    rw [offsetOf_eq hd, String.ofList_toList]
  rw [validate_eq, parse, if_neg hne, hread, ← hoffset]
  rfl

/-- The result that such an error blames is in order. -/
theorem OverrunsVoid.not_locatesOffence (h : OverrunsVoid d before after) :
    ¬LocatesOffence d (.unexpectedChar d before.utf8ByteSize 'V') := by
  rintro ⟨-, other, rest, hd, hsize, -, hnone⟩
  have hplace := h.text
  rw [hd, String.append_assoc, String.append_assoc] at hplace
  obtain rfl := eq_of_utf8ByteSize_eq hplace hsize.symm
  refine hnone ⟨"", ?_⟩
  rw [String.append_empty]
  exact h.accepted

/-- Every error of a walk over a descriptor says where the text leaves the grammar, with one
exception: where more text follows a void result, the error points at the result, which is in order,
and not at what follows it. -/
theorem errors_locate_offence (d : String) (e : DescriptorError)
    (h : validate d = .error e ∨ (∃ f, mapClassNames f d = .error e) ∨ split d = .error e) :
    (LocatesOffence d e ↔ ∀ before after, ¬OverrunsVoid d before after) ∧
      ∀ before after, OverrunsVoid d before after →
        e = .unexpectedChar d before.utf8ByteSize 'V' := by
  have hblamed : ∀ before after, OverrunsVoid d before after →
      e = .unexpectedChar d before.utf8ByteSize 'V' := by
    intro before after hoverrun
    rcases validate_eq_error h with hvalidate | ⟨hfield, -⟩
    · exact Except.error.inj (hvalidate.symm.trans hoverrun.validate)
    · cases hfield.symm.trans hoverrun.isMethod
  refine ⟨⟨fun hlocates before after hoverrun => ?_, fun hvoid => ?_⟩, hblamed⟩
  · rw [hblamed before after hoverrun] at hlocates
    exact hoverrun.not_locatesOffence hlocates
  · rcases validate_eq_error h with hvalidate | ⟨-, rfl⟩
    · exact locatesOffence_of_validate hvalidate hvoid
    · trivial

/-- The character that no type begins with, behind one that takes two bytes. -/
theorem offence_behind_wide_character :
    split "(La/é;日)V" = .error (.unexpectedChar "(La/é;日)V" 7 '日') ∧
      Viable "(La/é;" ∧ ¬Viable "(La/é;日" := by
  have hsplit : split "(La/é;日)V" = .error (.unexpectedChar "(La/é;日)V" 7 '日') := by
    decide +kernel
  obtain ⟨hlocates, hblamed⟩ := errors_locate_offence _ _ (.inr (.inr hsplit))
  obtain ⟨-, before, after, htext, hsize, hviable, hnone⟩ := hlocates.2 fun before after hvoid => by
    have hV := hblamed before after hvoid
    injection hV with _ _ hfound
    exact absurd hfound (by decide)
  have hplace : before ++ (String.singleton '日' ++ after) = "(La/é;" ++ "日)V" := by
    rw [← String.append_assoc, ← htext]
    decide +kernel
  obtain rfl := eq_of_utf8ByteSize_eq hplace (hsize.symm.trans (by decide +kernel))
  exact ⟨hsplit, hviable, hnone⟩

/-- The offence is the second letter, but the first one is reported. -/
theorem void_result_is_blamed :
    validate "()V" = .ok () ∧
      validate "()VV" = .error (.unexpectedChar "()VV" 2 'V') ∧
      split "()VV" = .error (.unexpectedChar "()VV" 2 'V') ∧
      ¬LocatesOffence "()VV" (.unexpectedChar "()VV" 2 'V') := by
  have hoverrun : OverrunsVoid "()VV" "()" "V" :=
    ⟨by decide +kernel, by decide +kernel, by decide⟩
  exact ⟨by decide +kernel, by decide +kernel, by decide +kernel, hoverrun.not_locatesOffence⟩

end Descriptor

end MixinNaming
