import MixinNaming.Declaration
import MixinNaming.Injection.Constant
import MixinNaming.MappingTable
import MixinNaming.Proofs.Idempotence.Edits
/-! Class names that are texts in a run that renames nothing. A name that mixes dots and slashes
comes out with dots alone, and after that it stays; so do the arguments of CONSTANT points, one of
which may be such a name. -/
namespace MixinNaming

open Text (slashed dotted)
open Declaration (renameText)

namespace Text

theorem toList_replace (old new : Char) (s : String) :
    (replace old new s).toList = s.toList.map fun c => if c = old then new else c :=
  String.toList_map

theorem slashed_slashed (s : String) : slashed (slashed s) = slashed s := by
  rw [String.ext_iff, slashed, slashed, toList_replace, toList_replace, List.map_map]
  refine List.map_congr_left fun c _ => ?_
  by_cases hdot : c = '.'
  · simp [hdot]
  · simp [hdot]

theorem slashed_dotted (s : String) : slashed (dotted (slashed s)) = slashed s := by
  rw [String.ext_iff, slashed, slashed, dotted, toList_replace, toList_replace, toList_replace,
    List.map_map, List.map_map]
  refine List.map_congr_left fun c _ => ?_
  by_cases hdot : c = '.'
  · simp [hdot]
  · by_cases hslash : c = '/'
    · simp [hslash]
    · simp [hdot, hslash]

theorem dot_notMem_slashed (s : String) : '.' ∉ (slashed s).toList := by
  rw [slashed, toList_replace]
  intro h
  obtain ⟨c, -, hc⟩ := List.mem_map.1 h
  by_cases hdot : c = '.'
  · simp [hdot] at hc
  · simp [hdot] at hc

theorem dot_mem_dotted {s : String} (h : '.' ∈ s.toList) :
    '.' ∈ (dotted (slashed s)).toList := by
  rw [dotted, slashed, toList_replace, toList_replace, List.map_map]
  exact List.mem_map.2 ⟨'.', h, by decide⟩

end Text

namespace MappingTable

variable {value : String}

theorem renameText_empty (written : String) : renameText empty.naming written =
    if '.' ∈ written.toList then dotted (slashed written) else slashed written := rfl

/-- The class that a text names does not depend on how it is spelt. -/
theorem slashed_renameText (written : String) :
    slashed (renameText empty.naming written) = slashed written := by
  rw [renameText_empty]
  split
  · exact Text.slashed_dotted written
  · exact Text.slashed_slashed written

theorem renameText_renameText (written : String) :
    renameText empty.naming (renameText empty.naming written) =
      renameText empty.naming written := by
  rw [renameText_empty (renameText empty.naming written), slashed_renameText, renameText_empty]
  by_cases hdot : '.' ∈ written.toList
  · rw [if_pos hdot, if_pos (Text.dot_mem_dotted hdot)]
  · rw [if_neg hdot, if_neg (Text.dot_notMem_slashed written)]

/-- Only dots and slashes are changed, each in its place. -/
theorem exists_toList_renameText (written : String) :
    ∃ f : Char → Char, (∀ c, f c = ';' ↔ c = ';') ∧
      (renameText empty.naming written).toList = written.toList.map f := by
  have hslashed : ∀ c : Char, (if c = '.' then '/' else c) = ';' ↔ c = ';' := by
    intro c
    by_cases hdot : c = '.'
    · simp [hdot]
    · simp [hdot]
  have hdotted : ∀ c : Char, (if c = '/' then '.' else c) = ';' ↔ c = ';' := by
    intro c
    by_cases hslash : c = '/'
    · simp [hslash]
    · simp [hslash]
  rw [renameText_empty]
  split
  · refine ⟨_, fun c => (hdotted _).trans (hslashed c), ?_⟩
    rw [dotted, slashed, Text.toList_replace, Text.toList_replace, List.map_map]
    rfl
  · exact ⟨_, hslashed, Text.toList_replace _ _ written⟩

end MappingTable

namespace ConstantArguments

open MappingTable (empty)

variable {entry key value : String} {renamed : Option String}

theorem renameClassValue_bare (hne : value.toList ≠ []) (hlast : value.toList.getLast? ≠ some ';') :
    renameClassValue empty.naming value = .ok (some (renameText empty.naming value)) := by
  rw [renameClassValue]
  dsimp only
  rw [if_neg hne, if_neg hlast]
  rfl

/-- The value of `classValue` stays, or it is a bare name that is spelt anew. -/
theorem renameClassValue_empty (h : renameClassValue empty.naming value = .ok renamed) :
    renamed = none ∨ renamed = some (renameText empty.naming value) ∧
      renameClassValue empty.naming (renameText empty.naming value) =
        .ok (some (renameText empty.naming value)) := by
  by_cases hne : value.toList = []
  · rw [renameClassValue] at h
    dsimp only at h
    rw [if_pos hne] at h
    cases h
    exact .inl rfl
  · by_cases hlast : value.toList.getLast? = some ';'
    · rw [renameClassValue] at h
      dsimp only at h
      rw [if_neg hne, if_pos hlast] at h
      obtain ⟨name, -, rfl⟩ := except_map_eq_ok.1 h
      exact .inl rfl
    · obtain ⟨f, hf, hchars⟩ := MappingTable.exists_toList_renameText value
      have hne' : (renameText empty.naming value).toList ≠ [] := by
        rw [hchars]
        exact fun hnil => hne (List.map_eq_nil_iff.1 hnil)
      have hlast' : (renameText empty.naming value).toList.getLast? ≠ some ';' := by
        rw [hchars, List.getLast?_map]
        intro hmapped
        obtain ⟨c, hc, hfc⟩ := Option.map_eq_some_iff.1 hmapped
        exact hlast (hc.trans (congrArg some ((hf c).1 hfc)))
      have hagain := renameClassValue_bare hne' hlast'
      rw [MappingTable.renameText_renameText] at hagain
      rw [renameClassValue_bare hne hlast] at h
      cases h
      exact .inr ⟨rfl, hagain⟩

theorem splitEntry_eq_some : splitEntry entry = some (key, value) ↔
    entry.toList = key.toList ++ '=' :: value.toList ∧ '=' ∉ key.toList := by
  rw [splitEntry, Option.map_eq_some_iff]
  constructor
  · rintro ⟨⟨before, after⟩, hsplit, heq⟩
    obtain ⟨rfl, rfl⟩ := Prod.mk.inj heq
    rw [String.toList_ofList, String.toList_ofList]
    exact Text.splitOnce_eq_some.1 hsplit
  · intro h
    refine ⟨_, Text.splitOnce_eq_some.2 h, ?_⟩
    rw [String.ofList_toList, String.ofList_toList]

theorem splitEntry_classValue (value : String) :
    splitEntry ("classValue=" ++ value) = some ("classValue", value) := by
  refine splitEntry_eq_some.2 ⟨?_, by decide⟩
  rw [String.toList_append, show "classValue=".toList = "classValue".toList ++ ['='] by decide,
    List.append_assoc]
  rfl

/-- What has become of a pair is read as a pair of that key, and stays. -/
theorem renameEntry_again (hentry : splitEntry entry = some (key, value))
    (h : renameEntry empty.naming key value = .ok renamed) :
    ∃ value', splitEntry (renamed.getD entry) = some (key, value') ∧
      ∃ again, renameEntry empty.naming key value' = .ok again ∧
        again.getD (renamed.getD entry) = renamed.getD entry := by
  have hsame : renamed = none → ∃ value', splitEntry (renamed.getD entry) = some (key, value') ∧
      ∃ again, renameEntry empty.naming key value' = .ok again ∧
        again.getD (renamed.getD entry) = renamed.getD entry := by
    rintro rfl
    exact ⟨value, hentry, none, h, rfl⟩
  rw [renameEntry] at h
  split at h
  · cases h
    exact hsame rfl
  · split at h
    · cases h
    · next hliteral hkey =>
      obtain rfl := not_not.1 hkey
      obtain ⟨found, hfound, rfl⟩ := except_map_eq_ok.1 h
      rcases renameClassValue_empty hfound with rfl | ⟨rfl, hagain⟩
      · exact hsame rfl
      · refine ⟨_, splitEntry_classValue _,
          some ("classValue=" ++ renameText empty.naming value), ?_, rfl⟩
        rw [renameEntry, if_neg hliteral, if_neg hkey, hagain]
        rfl

section Entries

variable {n : Naming} {location : String} {rest : List String}

theorem editFrom_text (hentry : splitEntry entry = none) (found : Bool) :
    editFrom n location found (entry :: rest) =
      (editFrom n location found rest).map (entry :: ·) := by
  rw [editFrom, hentry]

theorem editFrom_pair (hentry : splitEntry entry = some (key, value))
    (hrenamed : renameEntry n key value = .ok renamed) :
    editFrom n location false (entry :: rest) =
      (editFrom n location true rest).map (renamed.getD entry :: ·) := by
  rw [editFrom, hentry]
  dsimp only
  rw [hrenamed]
  rfl

end Entries

theorem editFrom_idempotent (location : String) (found : Bool) :
    Edit.Idempotent (editFrom empty.naming location found) := by
  intro entries h
  induction entries generalizing found with
  | nil =>
    cases found with
    | false => cases h
    | true => exact .keep []
  | cons entry rest ih =>
    cases hentry : splitEntry entry with
    | none =>
      rw [editFrom_text hentry] at h
      rw [editFrom_text hentry, Edit.map]
      dsimp only
      rw [editFrom_text hentry]
      exact (ih found h).map _
    | some pair =>
      obtain ⟨key, value⟩ := pair
      cases found with
      | true =>
        rw [editFrom, hentry] at h
        cases h
      | false =>
        cases hrenamed : renameEntry empty.naming key value with
        | error v =>
          rw [editFrom, hentry] at h
          dsimp only at h
          rw [hrenamed] at h
          cases h
        | ok renamed =>
          obtain ⟨value', hentry', again, hagain, hsame⟩ := renameEntry_again hentry hrenamed
          rw [editFrom_pair hentry hrenamed] at h
          rw [editFrom_pair hentry hrenamed, Edit.map]
          dsimp only
          rw [editFrom_pair hentry' hagain, hsame]
          exact (ih true h).map _

end ConstantArguments

end MixinNaming
