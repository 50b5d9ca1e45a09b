import MixinNaming.Injection.Arguments
import MixinNaming.Proofs.Idempotence.Spelling
/-! Class names that are written as texts, in a declaration or as an argument of a CONSTANT point.
A text stands for one class however it is spelt, and keeps its spelling when the class is renamed.
A CONSTANT point takes exactly one pair, and only a pair that names a class can change. -/
namespace MixinNaming

open Text (slashed dotted)

theorem Text.slashed_eq_self {s : String} (h : '.' ∉ s.toList) : slashed s = s := by
  have hsame : ∀ c ∈ s.toList, (if c = '.' then '/' else c) = c := by
    intro c hc
    rw [if_neg]
    rintro rfl
    exact h hc
  rw [String.ext_iff, slashed, toList_replace, List.map_congr_left hsame, List.map_id']

namespace Naming

variable {n : Naming}

def Undotted (n : Naming) : Prop := ∀ c renamed, n.class? c = some renamed → '.' ∉ renamed.toList

/-- The new name of the class that a text stands for, with dots if the text has dots and with
slashes if it has none. -/
def respell (n : Naming) (written : String) : String :=
  if '.' ∈ written.toList then dotted (n.className (slashed written))
  else slashed (n.className (slashed written))

theorem Undotted.className (h : n.Undotted) {c : String} (hc : '.' ∉ c.toList) :
    '.' ∉ (n.className c).toList := by
  rw [Naming.className]
  cases hrenamed : n.class? c with
  | none => exact hc
  | some renamed => exact h c renamed hrenamed

theorem undotted_empty : MappingTable.empty.naming.Undotted := by
  intro c renamed hc
  cases (Table.get?_empty c).symm.trans hc

theorem Undotted.withClass {table : MappingTable} (h : table.naming.Undotted) (source : String)
    {renamed : String} (hrenamed : '.' ∉ renamed.toList) :
    (table.withClass source renamed).naming.Undotted := by
  intro c image hc
  rcases (Table.get?_insert ..).symm.trans hc with hc
  split at hc
  · rw [← Option.some.inj hc]
    exact hrenamed
  · exact h c image hc

theorem Undotted.renameText_eq (h : n.Undotted) (written : String) :
    Declaration.renameText n written = n.respell written := by
  have hdots := h.className (Text.dot_notMem_slashed written)
  rw [Declaration.renameText, respell, Text.slashed_eq_self hdots]

end Naming

namespace ConstantArguments

inductive ClassValue (n : Naming) : String → String → Prop where
  | empty : ClassValue n "" ""
  | descriptor {name : String} (hname : name ≠ "") (hdots : '.' ∉ name.toList) :
      ClassValue n ("L" ++ name ++ ";") ("L" ++ n.className name ++ ";")
  | bare {name : String} (hname : name ≠ "") (hlast : name.toList.getLast? ≠ some ';') :
      ClassValue n name (n.respell name)

inductive PairRenamed (n : Naming) : String → String → Prop where
  | literal {key : String} (hkey : key ∈ literalKeys) (value : String) :
      PairRenamed n (key ++ "=" ++ value) (key ++ "=" ++ value)
  | classValue {value renamed : String} (h : ClassValue n value renamed) :
      PairRenamed n ("classValue=" ++ value) ("classValue=" ++ renamed)

/-- The entries before and after: one of them is a pair, and no other has an equals sign. -/
def SinglePair (n : Naming) (entries edited : List String) : Prop :=
  ∃ before pair renamed after, entries = before ++ pair :: after ∧
    edited = before ++ renamed :: after ∧
    (∀ entry ∈ before ++ after, '=' ∉ entry.toList) ∧ PairRenamed n pair renamed

variable {n : Naming} {value key entry out location : String} {entries edited : List String}

section Values

theorem renameClassValue_descriptor {name : String} (hname : name ≠ "")
    (hdots : '.' ∉ name.toList) : renameClassValue n ("L" ++ name ++ ";") =
      .ok ((n.class? name).map fun renamed => "L" ++ renamed ++ ";") := by
  obtain ⟨c, rest, hchars⟩ := List.exists_cons_of_ne_nil (mt String.toList_eq_nil_iff.1 hname)
  have htext : ("L" ++ name ++ ";").toList = 'L' :: name.toList ++ [';'] := by
    simp only [String.toList_append]
    rfl
  have hread : readDescriptor ("L" ++ name ++ ";") ('L' :: name.toList) = .ok name := by
    rw [hchars] at hdots ⊢
    rw [readDescriptor, if_neg hdots, ← hchars, String.ofList_toList]
  rw [renameClassValue]
  dsimp only
  rw [htext, if_neg (by simp), List.getLast?_concat, if_pos rfl, List.dropLast_concat, hread]
  rfl

/-- What is read as a descriptor is one. -/
theorem exists_name_of_readDescriptor {text name : String} {before : List Char}
    (htext : text.toList = before ++ [';']) (h : readDescriptor text before = .ok name) :
    name ≠ "" ∧ '.' ∉ name.toList ∧ text = "L" ++ name ++ ";" := by
  unfold readDescriptor at h
  split at h
  · next c rest =>
    split at h
    · cases h
    · next hdots =>
      cases h
      refine ⟨?_, ?_, ?_⟩
      · rw [ne_eq, ← String.toList_eq_nil_iff, String.toList_ofList]
        exact List.cons_ne_nil c rest
      · rwa [String.toList_ofList]
      · rw [String.ext_iff, htext]
        simp
  · cases h

/-- A value is accepted if it is empty, a descriptor or a bare name, and then it is renamed. -/
theorem renameClassValue_eq_ok_iff (h : n.Undotted) :
    (∃ renamed, renameClassValue n value = .ok renamed ∧ renamed.getD value = out) ↔
      ClassValue n value out := by
  constructor
  · rintro ⟨renamed, hrenamed, rfl⟩
    rw [renameClassValue] at hrenamed
    dsimp only at hrenamed
    split at hrenamed
    · next hempty =>
      cases hrenamed
      rw [String.toList_eq_nil_iff.1 hempty]
      exact .empty
    · next hne =>
      have hvalue : value ≠ "" := mt String.toList_eq_nil_iff.2 hne
      split at hrenamed
      · next hlast =>
        obtain ⟨name, hname, rfl⟩ := except_map_eq_ok.1 hrenamed
        have htext : value.toList = value.toList.dropLast ++ [';'] :=
          (List.dropLast_append_getLast? _ hlast).symm
        obtain ⟨hne', hdots, rfl⟩ := exists_name_of_readDescriptor htext hname
        have hclass : ((n.class? name).map fun renamed => "L" ++ renamed ++ ";").getD
            ("L" ++ name ++ ";") = "L" ++ n.className name ++ ";" := by
          rw [Naming.className]
          cases n.class? name with
          | none => rfl
          | some renamed => rfl
        rw [hclass]
        exact .descriptor hne' hdots
      · next hlast =>
        cases hrenamed
        have hspelt := h.renameText_eq value
        rw [Declaration.renameText] at hspelt
        rw [Option.getD_some, hspelt]
        exact .bare hvalue hlast
  · intro hvalue
    cases hvalue with
    | empty => exact ⟨none, rfl, rfl⟩
    | @descriptor name hname hdots =>
      refine ⟨_, renameClassValue_descriptor hname hdots, ?_⟩
      rw [Naming.className]
      cases n.class? name with
      | none => rfl
      | some renamed => rfl
    | bare hname hlast =>
      refine ⟨some (Declaration.renameText n value), ?_, h.renameText_eq value⟩
      rw [renameClassValue]
      dsimp only
      rw [if_neg (mt String.toList_eq_nil_iff.1 hname), if_neg hlast]
      rfl

end Values

section Pairs

theorem splitEntry_eq_none : splitEntry entry = none ↔ '=' ∉ entry.toList := by
  rw [splitEntry, Option.map_eq_none_iff, Text.splitOnce_eq_none]

theorem splitEntry_pair (hkey : '=' ∉ key.toList) (value : String) :
    splitEntry (key ++ "=" ++ value) = some (key, value) := by
  refine splitEntry_eq_some.2 ⟨?_, hkey⟩
  simp [String.toList_append]

theorem eq_of_splitEntry (h : splitEntry entry = some (key, value)) :
    entry = key ++ "=" ++ value := by
  rw [String.ext_iff, (splitEntry_eq_some.1 h).1]
  simp [String.toList_append]

/-- An entry is accepted as the pair if its key is known and, for a class, its value is accepted. -/
theorem renameEntry_eq_ok_iff (h : n.Undotted) :
    (∃ key value renamed, splitEntry entry = some (key, value) ∧
      renameEntry n key value = .ok renamed ∧ renamed.getD entry = out) ↔
        PairRenamed n entry out := by
  constructor
  · rintro ⟨key, value, renamed, hentry, hrenamed, rfl⟩
    obtain rfl := eq_of_splitEntry hentry
    rw [renameEntry] at hrenamed
    split at hrenamed
    · next hkey =>
      cases hrenamed
      exact .literal hkey value
    · split at hrenamed
      · cases hrenamed
      · next hkey =>
        obtain rfl := not_not.1 hkey
        obtain ⟨found, hfound, rfl⟩ := except_map_eq_ok.1 hrenamed
        have hvalue := (renameClassValue_eq_ok_iff h).1 ⟨found, hfound, rfl⟩
        have hentry : (found.map ("classValue=" ++ ·)).getD ("classValue" ++ "=" ++ value) =
            "classValue=" ++ found.getD value := by
          cases found with
          | none => rfl
          | some text => rfl
        rw [hentry]
        exact .classValue hvalue
  · intro hpair
    cases hpair with
    | @literal key hkey value =>
      have hsign : ∀ key ∈ literalKeys, '=' ∉ key.toList := by decide
      exact ⟨key, value, none, splitEntry_pair (hsign key hkey) value, if_pos hkey, rfl⟩
    | @classValue value renamed hvalue =>
      obtain ⟨found, hfound, rfl⟩ := (renameClassValue_eq_ok_iff h).2 hvalue
      refine ⟨"classValue", value, found.map ("classValue=" ++ ·), splitEntry_classValue value,
        ?_, ?_⟩
      · rw [renameEntry, if_neg (by decide), if_neg (not_not.2 rfl), hfound]
        rfl
      · cases found with
        | none => rfl
        | some text => rfl

end Pairs

section Entries

/-- Entries without an equals sign are passed over. -/
theorem editFrom_texts {before : List String} (h : ∀ entry ∈ before, '=' ∉ entry.toList)
    (found : Bool) (rest : List String) :
    editFrom n location found (before ++ rest) =
      (editFrom n location found rest).map (before ++ ·) := by
  induction before with
  | nil => rfl
  | cons entry more ih =>
    rw [List.forall_mem_cons] at h
    rw [List.cons_append, editFrom_text (splitEntry_eq_none.2 h.1), ih h.2]
    rfl

theorem edit_of_singlePair (hn : n.Undotted) (h : SinglePair n entries edited) :
    edit n location entries = .keep edited := by
  obtain ⟨before, pair, out, after, rfl, rfl, htexts, hpair⟩ := h
  obtain ⟨hbefore, hafter⟩ := List.forall_mem_append.1 htexts
  obtain ⟨key, value, renamed, hentry, hrenamed, rfl⟩ := (renameEntry_eq_ok_iff hn).2 hpair
  have hrest : editFrom n location true (after ++ []) =
      (editFrom n location true []).map (after ++ ·) := editFrom_texts hafter true []
  rw [List.append_nil] at hrest
  rw [edit, editFrom_texts hbefore, editFrom_pair hentry hrenamed, hrest]
  simp [Edit.map, editFrom, Edit.keep]

/-- After the pair a second one is refused. -/
theorem texts_of_completed (h : (editFrom n location true entries).fault = none) :
    ∀ entry ∈ entries, '=' ∉ entry.toList := by
  induction entries with
  | nil => nofun
  | cons entry rest ih =>
    cases hentry : splitEntry entry with
    | none =>
      rw [editFrom_text hentry] at h
      exact List.forall_mem_cons.2 ⟨splitEntry_eq_none.1 hentry, ih h⟩
    | some parts =>
      rw [editFrom, hentry] at h
      cases h

theorem singlePair_of_completed (hn : n.Undotted) (h : (edit n location entries).fault = none) :
    ∃ edited, SinglePair n entries edited := by
  rw [edit] at h
  induction entries with
  | nil => cases h
  | cons entry rest ih =>
    cases hentry : splitEntry entry with
    | none =>
      rw [editFrom_text hentry] at h
      obtain ⟨-, before, pair, renamed, after, rfl, -, htexts, hpair⟩ := ih h
      refine ⟨_, entry :: before, pair, renamed, after, rfl, rfl, ?_, hpair⟩
      exact List.forall_mem_cons.2 ⟨splitEntry_eq_none.1 hentry, htexts⟩
    | some parts =>
      obtain ⟨key, value⟩ := parts
      cases hrenamed : renameEntry n key value with
      | error v =>
        rw [editFrom, hentry] at h
        dsimp only at h
        rw [hrenamed] at h
        cases h
      | ok renamed =>
        rw [editFrom_pair hentry hrenamed] at h
        refine ⟨renamed.getD entry :: rest, [], entry, renamed.getD entry, rest, rfl, rfl,
          texts_of_completed h, ?_⟩
        exact (renameEntry_eq_ok_iff hn).1 ⟨key, value, renamed, hentry, hrenamed, rfl⟩

theorem editFrom_structural (found : Bool) (entries : List String) :
    (editFrom n location found entries).Structural := by
  induction entries generalizing found with
  | nil =>
    cases found with
    | false => exact Edit.structural_refuse _ _ _
    | true => exact Edit.structural_keep []
  | cons entry rest ih =>
    rw [editFrom]
    split
    · exact ih found
    · split
      · exact Edit.structural_refuse _ _ _
      · split
        · exact Edit.structural_refuse _ _ _
        · exact ih true

end Entries

end ConstantArguments

open ConstantArguments (SinglePair)

/-- The arguments of a CONSTANT point are texts, alone or in a list, of which exactly one is a pair
that can be read. The class that the pair names is renamed, and nothing else changes. All other
arguments are a fault of the mixin itself, and so is a point without arguments. -/
theorem constant_takes_single_pair (r : Remapper) (location : String)
    (arguments : Option AnnotationValue) (hn : r.naming.Undotted) :
    let run := InjectionPoint.constant.remapArguments r location arguments
    (run.fault = none ↔ ∃ v entries edited, arguments = some v ∧
      v.items = entries.map .string ∧ SinglePair r.naming entries edited) ∧
    (∀ v entries edited, arguments = some v → v.items = entries.map .string →
      SinglePair r.naming entries edited →
        run = .keep (some (v.withItems (edited.map .string)))) ∧
    ∀ f, run.fault = some f → f.isStructural = true := by
  intro run
  have hkeep : ∀ v entries edited, arguments = some v → v.items = entries.map .string →
      SinglePair r.naming entries edited →
        run = .keep (some (v.withItems (edited.map .string))) := by
    rintro v entries edited rfl hitems hpair
    have hedit : ConstantArguments.edit r.naming location entries = .keep edited :=
      ConstantArguments.edit_of_singlePair hn hpair
    simp only [run, InjectionPoint.remapArguments, AnnotationValue.strings?_eq_some.2 hitems,
      InjectionPoint.editEntries, hedit]
    rfl
  refine ⟨⟨fun hcompleted => ?_, ?_⟩, hkeep, ?_⟩
  · cases harguments : arguments with
    | none =>
      simp only [run, harguments, InjectionPoint.remapArguments, if_true] at hcompleted
      cases hcompleted
    | some v =>
      simp only [run, harguments, InjectionPoint.remapArguments] at hcompleted
      cases htexts : v.strings? with
      | none =>
        simp only [htexts] at hcompleted
        cases hcompleted
      | some entries =>
        simp only [htexts, InjectionPoint.editEntries] at hcompleted
        obtain ⟨edited, hpair⟩ := ConstantArguments.singlePair_of_completed hn hcompleted
        exact ⟨v, entries, edited, rfl, AnnotationValue.strings?_eq_some.1 htexts, hpair⟩
  · rintro ⟨v, entries, edited, harguments, hitems, hpair⟩
    rw [hkeep v entries edited harguments hitems hpair]
    rfl
  · have hstructural : run.Structural := by
      simp only [run]
      unfold InjectionPoint.remapArguments
      split
      · rw [if_pos rfl]
        exact Edit.structural_refuse _ _ _
      · split
        · exact Edit.structural_refuse _ _ _
        · exact ConstantArguments.editFrom_structural false _
    exact hstructural

/-- A class that is spelt in a mixed way comes out with dots, beside an entry that is no pair; with
a second pair the same entries are refused. -/
theorem mixed_spelling_beside_bare_word :
    let r : Remapper := ⟨(MappingTable.empty.withClass "a/b/T" "c/d/U").naming, .empty, .lenient⟩
    let run entries := InjectionPoint.constant.remapArguments r "" (some (.strings entries))
    r.naming.Undotted ∧
      run ["ordinal", "classValue=a.b/T"] =
        .keep (some (.strings ["ordinal", "classValue=c.d.U"])) ∧
      ∃ f, (run ["classValue=a.b/T", "intValue=5"]).fault = some f ∧ f.isStructural = true := by
  intro r run
  have hn : r.naming.Undotted := Naming.undotted_empty.withClass "a/b/T" (by decide)
  have hvalue : ConstantArguments.ClassValue r.naming "a.b/T" (r.naming.respell "a.b/T") :=
    .bare (by decide) (by decide)
  have hspelt : r.naming.respell "a.b/T" = "c.d.U" := by decide +kernel
  have hpair : SinglePair r.naming ["ordinal", "classValue=a.b/T"]
      ["ordinal", "classValue=c.d.U"] :=
    ⟨["ordinal"], _, _, [], rfl, rfl, by decide, .classValue (hspelt ▸ hvalue)⟩
  obtain ⟨-, hkeep, -⟩ := constant_takes_single_pair r "" (some (.strings _)) hn
  obtain ⟨-, -, hrefused⟩ :=
    constant_takes_single_pair r "" (some (.strings ["classValue=a.b/T", "intValue=5"])) hn
  have hstops : (run ["classValue=a.b/T", "intValue=5"]).fault.isSome = true := by decide +kernel
  obtain ⟨f, hf⟩ := Option.isSome_iff_exists.1 hstops
  exact ⟨hn, hkeep _ _ _ rfl rfl hpair, f, hf, hrefused f hf⟩

end MixinNaming
