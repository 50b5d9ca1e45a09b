/-! A finite map kept as a list that is strictly sorted by key, so that two tables with the same
contents are equal and a listing is in key order. Writing a key again replaces its value. -/
namespace MixinNaming

variable {κ ν : Type} [Ord κ]

structure Table (κ ν : Type) [Ord κ] where
  entries : List (κ × ν)
  sorted : entries.Pairwise fun a b => compare a.1 b.1 = .lt

namespace Table

def insertEntry (k : κ) (v : ν) : List (κ × ν) → List (κ × ν)
  | [] => [(k, v)]
  | e :: rest =>
    match compare k e.1 with
    | .lt => (k, v) :: e :: rest
    | .eq => (k, v) :: rest
    | .gt => e :: insertEntry k v rest

def lookupEntry (k : κ) (es : List (κ × ν)) : Option ν :=
  (es.find? fun e => compare k e.1 == .eq).map (·.2)

theorem mem_insertEntry {k : κ} {v : ν} {es : List (κ × ν)} {e : κ × ν}
    (h : e ∈ insertEntry k v es) : e = (k, v) ∨ e ∈ es := by
  induction es with
  | nil => simpa [insertEntry] using h
  | cons d rest ih =>
    unfold insertEntry at h
    split at h <;> simp only [List.mem_cons] at h ⊢
    · exact h
    · exact h.imp_right Or.inr
    · rcases h with h | h
      · exact .inr (.inl h)
      · exact (ih h).imp_right Or.inr

theorem insertEntry_sorted [Std.TransOrd κ] (k : κ) (v : ν) {es : List (κ × ν)}
    (h : es.Pairwise fun a b => compare a.1 b.1 = .lt) :
    (insertEntry k v es).Pairwise fun a b => compare a.1 b.1 = .lt := by
  induction es with
  | nil => simp [insertEntry]
  | cons d rest ih =>
    obtain ⟨hd, hr⟩ := List.pairwise_cons.1 h
    unfold insertEntry
    split <;> rename_i hc
    · refine List.pairwise_cons.2 ⟨fun e he => ?_, h⟩
      rcases List.mem_cons.1 he with rfl | he
      · exact hc
      · exact Std.TransCmp.lt_trans hc (hd e he)
    · exact List.pairwise_cons.2 ⟨fun e he => Std.TransCmp.lt_of_eq_of_lt hc (hd e he), hr⟩
    · refine List.pairwise_cons.2 ⟨fun e he => ?_, ih hr⟩
      rcases mem_insertEntry he with rfl | he
      · exact Std.OrientedCmp.lt_of_gt hc
      · exact hd e he

def empty : Table κ ν := ⟨[], .nil⟩

instance : Inhabited (Table κ ν) := ⟨empty⟩

def insert [Std.TransOrd κ] (t : Table κ ν) (k : κ) (v : ν) : Table κ ν :=
  ⟨insertEntry k v t.entries, insertEntry_sorted k v t.sorted⟩

def get? (t : Table κ ν) (k : κ) : Option ν := lookupEntry k t.entries

/-- Later pairs win. -/
def ofList [Std.TransOrd κ] (pairs : List (κ × ν)) : Table κ ν :=
  pairs.foldl (fun t p => t.insert p.1 p.2) empty

@[simp] theorem get?_empty (k : κ) : (empty : Table κ ν).get? k = none := rfl

theorem lookupEntry_cons (k : κ) (e : κ × ν) (es : List (κ × ν)) :
    lookupEntry k (e :: es) = if compare k e.1 = .eq then some e.2 else lookupEntry k es := by
  by_cases h : compare k e.1 = .eq
  · simp [lookupEntry, h]
  · have hb : (compare k e.1 == Ordering.eq) = false := by simpa using h
    simp [lookupEntry, h, hb]

theorem lookupEntry_insertEntry [Std.TransOrd κ] [Std.LawfulEqOrd κ] (k k' : κ) (v : ν)
    (es : List (κ × ν)) :
    lookupEntry k' (insertEntry k v es) =
      if compare k' k = .eq then some v else lookupEntry k' es := by
  induction es with
  | nil => rw [insertEntry, lookupEntry_cons]
  | cons d rest ih =>
    unfold insertEntry
    split <;> rename_i hc
    · rw [lookupEntry_cons]
    · obtain rfl := Std.LawfulEqOrd.eq_of_compare hc
      rw [lookupEntry_cons, lookupEntry_cons]
      by_cases h : compare k' d.1 = .eq <;> simp [h]
    · rw [lookupEntry_cons, lookupEntry_cons, ih]
      by_cases h : compare k' d.1 = .eq
      · obtain rfl := Std.LawfulEqOrd.eq_of_compare h
        have : compare d.1 k ≠ .eq := by
          intro he
          obtain h := Std.LawfulEqOrd.eq_of_compare he
          simp [h] at hc
        simp [this]
      · simp [h]

theorem get?_insert [Std.TransOrd κ] [Std.LawfulEqOrd κ] (t : Table κ ν) (k k' : κ) (v : ν) :
    (t.insert k v).get? k' = if compare k' k = .eq then some v else t.get? k' :=
  lookupEntry_insertEntry k k' v t.entries

theorem mem_of_get? [Std.LawfulEqOrd κ] {t : Table κ ν} {k : κ} {v : ν} (h : t.get? k = some v) :
    (k, v) ∈ t.entries := by
  simp only [get?, lookupEntry, Option.map_eq_some_iff] at h
  obtain ⟨e, he, rfl⟩ := h
  have hk : compare k e.1 = .eq := by simpa using List.find?_some he
  obtain rfl := Std.LawfulEqOrd.eq_of_compare hk
  exact List.mem_of_find?_eq_some he

end Table

end MixinNaming
