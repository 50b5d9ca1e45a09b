/-! Cutting a text at the first character of a kind or at all of them, and the two spellings of a
class name. -/
namespace MixinNaming.Text

/-- The text before and after the first `c`, if there is one. -/
def splitOnce (c : Char) : List Char → Option (List Char × List Char)
  | [] => none
  | d :: rest =>
    if d = c then some ([], rest)
    else (splitOnce c rest).map fun parts => (d :: parts.1, parts.2)

theorem splitOnce_eq_some {c : Char} {cs before after : List Char} :
    splitOnce c cs = some (before, after) ↔ cs = before ++ c :: after ∧ c ∉ before := by
  induction cs generalizing before with
  | nil => simp [splitOnce]
  | cons d rest ih =>
    by_cases h : d = c
    · subst h
      cases before with
      | nil => simp [splitOnce]
      | cons e before => simp +contextual [splitOnce]
    · cases before with
      | nil => simp [splitOnce, h]
      | cons e before =>
        simp only [splitOnce, h, if_false, Option.map_eq_some_iff, Prod.mk.injEq, Prod.exists,
          List.cons_append, List.cons.injEq, List.mem_cons, not_or]
        constructor
        · rintro ⟨p, q, hs, ⟨rfl, rfl⟩, rfl⟩
          obtain ⟨hr, hn⟩ := ih.1 hs
          exact ⟨⟨rfl, hr⟩, fun h' => h h'.symm, hn⟩
        · rintro ⟨⟨rfl, hr⟩, -, hn⟩
          exact ⟨before, after, ih.2 ⟨hr, hn⟩, ⟨rfl, rfl⟩, rfl⟩

theorem splitOnce_eq_none {c : Char} {cs : List Char} : splitOnce c cs = none ↔ c ∉ cs := by
  induction cs with
  | nil => simp [splitOnce]
  | cons d rest ih =>
    by_cases h : d = c
    · simp [splitOnce, h]
    · simp [splitOnce, h, ih, Ne.symm h]

/-- All texts between the characters `c`, one more than there are of these. -/
def splitAll (c : Char) (cs : List Char) : List (List Char) :=
  cs.foldr (fun d parts => if d = c then [] :: parts else parts.modifyHead (d :: ·)) [[]]

def replace (old new : Char) (s : String) : String :=
  s.map fun c => if c = old then new else c

/-- Packages separated by slashes, as in an internal class name. -/
def slashed (s : String) : String := replace '.' '/' s

/-- Packages separated by dots, as in source code. -/
def dotted (s : String) : String := replace '/' '.' s

end MixinNaming.Text
