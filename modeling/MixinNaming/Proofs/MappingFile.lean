import Mathlib.Data.List.Nodup
import Mathlib.Data.List.Perm.Basic
import MixinNaming.Proofs.Document.Loading
import MixinNaming.Proofs.Table
/-! Mapping files and the tables that they make. A file may state a member several times and list
methods among the fields; a table states every member once, sorted, in the list where it belongs,
and what is written and read again is the same table. -/
namespace MixinNaming

def MemberRef.Precedes (a b : MemberRef) : Prop :=
  a.owner < b.owner ∨ a.owner = b.owner ∧ (a.name < b.name ∨ a.name = b.name ∧ a.desc < b.desc)

theorem MemberRef.precedes_iff {a b : MemberRef} : a.Precedes b ↔ compare a b = .lt := by
  have hlt : ∀ s t : String, compare s t = .lt ↔ s < t := fun s t => compareOfLessAndEq_eq_lt
  rw [compare_def, compareLex, Ordering.then_eq_lt, compareLex, Ordering.then_eq_lt]
  simp only [compareOn, hlt, Std.LawfulEqOrd.compare_eq_iff_eq, Precedes]

namespace MappingTable

variable {t : MappingTable} {f : MappingFile}

def pair (r : Rename) : MemberRef × String := (r.member, r.newName)

theorem foldl_withMember (renames : List Rename) (classes : Table String String)
    (members : Table MemberRef String) :
    renames.foldl withMember ⟨classes, members⟩ =
      ⟨classes, (renames.map pair).foldl (fun t p => t.insert p.1 p.2) members⟩ := by
  induction renames generalizing members with
  | nil => rfl
  | cons r rest ih => exact ih _

theorem foldl_withClass (entries : List (String × String)) (classes : Table String String)
    (members : Table MemberRef String) :
    entries.foldl (fun (t : MappingTable) e => t.withClass e.1 e.2) ⟨classes, members⟩ =
      ⟨entries.foldl (fun t e => t.insert e.1 e.2) classes, members⟩ := by
  induction entries generalizing classes with
  | nil => rfl
  | cons e rest ih => exact ih _

theorem ofFile_eq (f : MappingFile) :
    ofFile f = ⟨f.classes, .ofList ((f.methods ++ f.fields).map pair)⟩ :=
  foldl_withMember _ _ _

theorem ofFile_eq_foldl (f : MappingFile) :
    ofFile f = f.fields.foldl withMember (f.methods.foldl withMember
      (f.classes.entries.foldl (fun t e => t.withClass e.1 e.2) empty)) := by
  have hclasses : f.classes.entries.foldl (fun t e => t.withClass e.1 e.2) empty =
      ⟨f.classes, .empty⟩ := by
    rw [empty, foldl_withClass]
    exact congrArg (MappingTable.mk · .empty) f.classes.ofList_entries
  rw [hclasses, ← List.foldl_append]
  rfl

theorem memberName_ofFile (m : MemberRef) :
    (ofFile f).memberName m =
      match (f.methods ++ f.fields).reverse.find? fun r => r.member = m with
      | some r => r.newName
      | none => m.name := by
  rw [ofFile_eq, memberName, Table.get?_ofList, Table.lastValue?, ← List.map_reverse,
    List.find?_map]
  change (Option.map _ (Option.map _ ((f.methods ++ f.fields).reverse.find? fun r =>
    decide (r.member = m)))).getD _ = _
  cases (f.methods ++ f.fields).reverse.find? fun r => decide (r.member = m) <;> rfl

theorem mem_renames {r : Rename} :
    r ∈ t.renames ↔ t.members.get? r.member = some r.newName := by
  rw [Table.get?_eq_some_iff, renames, List.mem_map]
  constructor
  · rintro ⟨e, he, rfl⟩
    exact he
  · intro h
    exact ⟨_, h, rfl⟩

theorem renames_sorted (t : MappingTable) :
    t.renames.Pairwise fun a b => a.member.Precedes b.member := by
  rw [renames, List.pairwise_map]
  exact t.members.sorted.imp MemberRef.precedes_iff.2

/-- The two lists of a file together hold what the table holds. -/
theorem toFile_perm (t : MappingTable) : (t.toFile.methods ++ t.toFile.fields).Perm t.renames :=
  List.filter_append_perm _ _

theorem nodup_members (t : MappingTable) :
    ((t.toFile.methods ++ t.toFile.fields).map Rename.member).Nodup := by
  rw [((toFile_perm t).map Rename.member).nodup_iff, renames, List.map_map]
  exact List.pairwise_map.2 t.members.compare_keys_ne

theorem ofFile_toFile (t : MappingTable) : ofFile t.toFile = t := by
  have hkeys : ((t.toFile.methods ++ t.toFile.fields).map pair).Pairwise
      fun a b => a.1 ≠ b.1 := by
    rw [List.pairwise_map]
    exact List.pairwise_map.1 (nodup_members t)
  have hmembers : ∀ e, e ∈ (t.toFile.methods ++ t.toFile.fields).map pair ↔
      e ∈ t.members.entries := by
    intro e
    have hentries : t.renames.map pair = t.members.entries := by
      rw [renames, List.map_map]
      exact List.map_id _
    rw [((toFile_perm t).map pair).mem_iff, hentries]
  rw [ofFile_eq, Table.ofList_eq hkeys hmembers]
  rfl

theorem loads_mappingTable (t : MappingTable) : Decode.Loads Decode.mappingTable t.toJson t := by
  intro depth k hk
  rw [Decode.mappingTable, Decode.loads_mappingFile t.toFile depth k hk, Option.map_some,
    ofFile_toFile]

/-- A file makes the table that entering its lines one by one makes, classes first and fields last,
and the last line about a member decides. What a table writes is sorted and states every member
once, methods and fields apart; read again it makes the same table. -/
theorem mapping_files_have_normal_form :
    (∀ f : MappingFile,
      (∀ m, (ofFile f).memberName m =
        match (f.methods ++ f.fields).reverse.find? fun r => r.member = m with
        | some r => r.newName
        | none => m.name) ∧
      (∀ c, (ofFile f).className? c = f.classes.get? c) ∧
      ofFile f = f.fields.foldl withMember (f.methods.foldl withMember
        (f.classes.entries.foldl (fun t e => t.withClass e.1 e.2) empty))) ∧
    ∀ t : MappingTable,
      (t.toFile.methods.Pairwise (fun a b => a.member.Precedes b.member) ∧
        t.toFile.fields.Pairwise (fun a b => a.member.Precedes b.member)) ∧
      ((t.toFile.methods ++ t.toFile.fields).map Rename.member).Nodup ∧
      (∀ r, r ∈ t.toFile.methods ↔
        t.members.get? r.member = some r.newName ∧ ∃ rest, r.member.desc.toList = '(' :: rest) ∧
      (∀ r, r ∈ t.toFile.fields ↔
        t.members.get? r.member = some r.newName ∧ ¬ ∃ rest, r.member.desc.toList = '(' :: rest) ∧
      (∀ c, (ofFile t.toFile).className? c = t.className? c) ∧
      (∀ m, (ofFile t.toFile).memberName m = t.memberName m) ∧
      (ofFile t.toFile).toFile = t.toFile ∧
      ∀ k, t.toJson.Omits k → ∀ depth, k.depth ≤ depth →
        Decode.mappingTable depth k = some t := by
  refine ⟨fun f => ⟨memberName_ofFile, fun c => ?_, ofFile_eq_foldl f⟩, fun t => ?_⟩
  · rw [ofFile_eq]
    rfl
  · have hsame : ofFile t.toFile = t := ofFile_toFile t
    refine ⟨⟨(renames_sorted t).filter _, (renames_sorted t).filter _⟩, nodup_members t,
      fun r => ?_, fun r => ?_, fun c => by rw [hsame], fun m => by rw [hsame], by rw [hsame],
      fun k homits depth hdepth => loads_mappingTable t depth k ⟨homits, hdepth⟩⟩
    · rw [toFile, List.mem_filter, mem_renames, MemberRef.isMethod, Descriptor.isMethod_iff]
    · rw [toFile, List.mem_filter, mem_renames, ← Descriptor.isMethod_iff, Bool.not_eq_true',
        Bool.not_eq_true, MemberRef.isMethod]

def misfiled : MappingFile where
  classes := .empty
  methods := [⟨⟨"a/T", "run", "()V"⟩, "b"⟩, ⟨⟨"a/T", "n", "I"⟩, "c"⟩]
  fields := [⟨⟨"a/T", "run", "()V"⟩, "d"⟩]

theorem misfiled_lines_are_sorted_out :
    ((ofFile misfiled).toJson.Omits (ofFile misfiled).toJson ∧
      (ofFile misfiled).toJson.depth ≤ Decode.documentDepth) ∧
    (ofFile misfiled).memberName ⟨"a/T", "run", "()V"⟩ = "d" ∧
    Decode.mappingTable Decode.documentDepth (ofFile misfiled).toJson = some (ofFile misfiled) := by
  have homits : (ofFile misfiled).toJson.Omits (ofFile misfiled).toJson := .same _
  have hdepth : (ofFile misfiled).toJson.depth ≤ Decode.documentDepth := by decide
  obtain ⟨hfiles, htables⟩ := mapping_files_have_normal_form
  obtain ⟨-, -, -, -, -, -, -, hloads⟩ := htables (ofFile misfiled)
  exact ⟨⟨homits, hdepth⟩, (hfiles misfiled).1 ⟨"a/T", "run", "()V"⟩,
    hloads _ homits Decode.documentDepth hdepth⟩

end MappingTable

end MixinNaming
