/-! The classes that a mixin is applied to: no class twice, in the order of first mention. -/
namespace MixinNaming

structure TargetSet where
  classes : List String
  nodup : classes.Nodup

namespace TargetSet

def empty : TargetSet := ⟨[], .nil⟩

instance : Inhabited TargetSet := ⟨empty⟩

def contains (t : TargetSet) (c : String) : Bool := t.classes.contains c

def insert (t : TargetSet) (c : String) : TargetSet :=
  if h : c ∈ t.classes then t
  else ⟨t.classes ++ [c], by
    rw [List.nodup_append]
    refine ⟨t.nodup, by simp, fun a ha b hb => ?_⟩
    obtain rfl := List.mem_singleton.1 hb
    exact fun hab => h (hab ▸ ha)⟩

def ofList (cs : List String) : TargetSet := cs.foldl insert empty

def single (c : String) : TargetSet := ⟨[c], by simp⟩

def size (t : TargetSet) : Nat := t.classes.length

def isEmpty (t : TargetSet) : Bool := t.classes.isEmpty

@[simp] theorem classes_empty : empty.classes = [] := rfl

theorem classes_insert (t : TargetSet) (c : String) :
    (t.insert c).classes = if c ∈ t.classes then t.classes else t.classes ++ [c] := by
  unfold insert
  split <;> simp [*]

theorem mem_insert {t : TargetSet} {c d : String} :
    d ∈ (t.insert c).classes ↔ d = c ∨ d ∈ t.classes := by
  rw [classes_insert]
  split <;> rename_i h
  · exact ⟨.inr, fun hd => hd.elim (fun hdc => hdc ▸ h) id⟩
  · simp [or_comm]

@[simp] theorem contains_eq_true {t : TargetSet} {c : String} :
    t.contains c = true ↔ c ∈ t.classes := by
  simp [contains]

end TargetSet

end MixinNaming
