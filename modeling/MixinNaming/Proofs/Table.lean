import Mathlib.Data.List.Induction
import Mathlib.Data.List.Sort
import MixinNaming.Table
/-! Tables and the lists of pairs that they are made of: a table is determined by its look-ups, and
of several pairs with one key the last is found. -/
namespace MixinNaming.Table

variable {κ ν : Type}

section LastValue

variable [DecidableEq κ]

def lastValue? (pairs : List (κ × ν)) (k : κ) : Option ν :=
  (pairs.reverse.find? fun p => p.1 = k).map (·.2)

theorem lastValue?_append_singleton (pairs : List (κ × ν)) (p : κ × ν) (k : κ) :
    lastValue? (pairs ++ [p]) k = if p.1 = k then some p.2 else lastValue? pairs k := by
  by_cases h : p.1 = k <;> simp [lastValue?, h]

/-- Where every key stands once, the last pair with a key is the only one. -/
theorem lastValue?_eq_some_iff {pairs : List (κ × ν)}
    (hkeys : pairs.Pairwise fun a b => a.1 ≠ b.1) {k : κ} {v : ν} :
    lastValue? pairs k = some v ↔ (k, v) ∈ pairs := by
  induction pairs using List.reverseRecOn with
  | nil => simp [lastValue?]
  | append_singleton front p ih =>
    rw [List.pairwise_append] at hkeys
    rw [lastValue?_append_singleton, List.mem_append, List.mem_singleton]
    split
    · next hkey =>
      subst hkey
      have hfront : (p.1, v) ∉ front := fun h => hkeys.2.2 _ h p (List.mem_singleton.2 rfl) rfl
      simp [hfront, Prod.ext_iff, eq_comm]
    · next hkey =>
      have hother : (k, v) ≠ p := fun h => hkey (h ▸ rfl)
      rw [ih hkeys.1, or_iff_left hother]

end LastValue

variable [Ord κ] [Std.TransOrd κ]

theorem ne_of_compare_lt {a b : κ} (h : compare a b = .lt) : a ≠ b := by
  rintro rfl
  simp [Std.ReflCmp.compare_self] at h

theorem compare_keys_ne (t : Table κ ν) : t.entries.Pairwise fun a b => a.1 ≠ b.1 :=
  t.sorted.imp ne_of_compare_lt

theorem eq_of_mem_iff {t u : Table κ ν} (h : ∀ e, e ∈ t.entries ↔ e ∈ u.entries) : t = u := by
  have hirrefl : Std.Irrefl fun a b : κ × ν => compare a.1 b.1 = .lt :=
    ⟨fun e he => ne_of_compare_lt he rfl⟩
  have hantisymm : Std.Antisymm fun a b : κ × ν => compare a.1 b.1 = .lt :=
    ⟨fun a b hab hba => by simp [Std.OrientedCmp.gt_of_lt hab] at hba⟩
  obtain ⟨entries, hentries⟩ := t
  obtain ⟨others, hothers⟩ := u
  obtain rfl : entries = others := hentries.eq_of_mem_iff hothers h
  rfl

variable [Std.LawfulEqOrd κ]

theorem get?_eq_some_iff {t : Table κ ν} {k : κ} {v : ν} :
    t.get? k = some v ↔ (k, v) ∈ t.entries := by
  refine ⟨mem_of_get?, fun h => ?_⟩
  obtain ⟨entries, hsorted⟩ := t
  change lookupEntry k entries = some v
  induction entries with
  | nil => cases h
  | cons e rest ih =>
    rw [List.pairwise_cons] at hsorted
    rw [lookupEntry_cons]
    rcases List.mem_cons.1 h with rfl | hrest
    · rw [if_pos Std.ReflCmp.compare_self]
    · have hlt := hsorted.1 _ hrest
      have hne : compare k e.1 ≠ .eq := by
        intro heq
        rw [Std.LawfulEqOrd.eq_of_compare heq] at hlt
        exact ne_of_compare_lt hlt rfl
      rw [if_neg hne, ih hsorted.2 hrest]

/-- Tables with the same look-ups are equal. -/
theorem ext_get? {t u : Table κ ν} (h : ∀ k, t.get? k = u.get? k) : t = u :=
  eq_of_mem_iff fun e => by rw [← get?_eq_some_iff, ← get?_eq_some_iff, h]

variable [DecidableEq κ]

theorem get?_ofList (pairs : List (κ × ν)) (k : κ) :
    (ofList pairs).get? k = lastValue? pairs k := by
  induction pairs using List.reverseRecOn with
  | nil => rfl
  | append_singleton front p ih =>
    have hinsert : ofList (front ++ [p]) = (ofList front).insert p.1 p.2 := by
      rw [ofList, List.foldl_append]
      rfl
    rw [hinsert, get?_insert, ih, lastValue?_append_singleton]
    refine if_congr ⟨fun h => ?_, fun h => ?_⟩ rfl rfl
    · exact (Std.LawfulEqOrd.eq_of_compare h).symm
    · rw [h]
      exact Std.ReflCmp.compare_self

/-- A table is made again from its entries, in whatever order they come. -/
theorem ofList_eq {pairs : List (κ × ν)} (hkeys : pairs.Pairwise fun a b => a.1 ≠ b.1)
    {t : Table κ ν} (h : ∀ e, e ∈ pairs ↔ e ∈ t.entries) : ofList pairs = t := by
  refine ext_get? fun k => Option.ext fun v => ?_
  rw [get?_ofList, lastValue?_eq_some_iff hkeys, get?_eq_some_iff, h]

theorem ofList_entries (t : Table κ ν) : ofList t.entries = t :=
  ofList_eq t.compare_keys_ne fun _ => .rfl

end MixinNaming.Table
