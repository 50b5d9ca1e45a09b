import MixinNaming.Config.Search
/-! Which configuration file takes effect. The search climbs from a directory to its parents, ten
directories in all, and stops at the first file that it can use. -/
namespace MixinNaming

namespace Path

def above (start : String) : (steps : Nat) → Option String
  | 0 => some start
  | steps + 1 => (above start steps).bind parent?

theorem above_succ (start : String) (steps : Nat) :
    above start (steps + 1) = (parent? start).bind fun parent => above parent steps := by
  induction steps with
  | zero => simp [above]
  | succ steps ih =>
    rw [above, ih, Option.bind_assoc]
    rfl

theorem getElem?_ancestors (start : String) (depth steps : Nat) :
    (ancestors start depth)[steps]? = if steps < depth then above start steps else none := by
  induction depth generalizing start steps with
  | zero => simp [ancestors]
  | succ depth ih =>
    cases steps with
    | zero => simp [ancestors, above]
    | succ steps =>
      rw [ancestors, List.getElem?_cons_succ, above_succ]
      cases parent? start with
      | none => simp
      | some parent => simp [ih]

end Path

namespace Config

variable {offers : String → ConfigFile} {start : String}

/-- What the directory some steps above another offers; where no directory is, there is no file. -/
def offered (offers : String → ConfigFile) (start : String) (steps : Nat) : ConfigFile :=
  match Path.above start steps with
  | some directory => offers (Path.join directory configFileName)
  | none => .absent

def search (offers : String → ConfigFile) (start : String) : Config :=
  nearest ((searchPaths start).map offers)

theorem getElem?_searchPaths (start : String) (steps : Nat) :
    (searchPaths start)[steps]? =
      if steps < 10 then
        (Path.above start steps).map fun directory => Path.join directory configFileName
      else none := by
  rw [searchPaths, List.getElem?_map, Path.getElem?_ancestors]
  change Option.map _ (if steps < 10 then _ else none) = _
  split <;> rfl

/-- The list of the files that a search looks at, read place by place. -/
theorem config?_of_offered (offers : String → ConfigFile) (start : String) (steps : Nat) :
    (((searchPaths start).map offers)[steps]?.bind ConfigFile.config?) =
      if steps < 10 then (offered offers start steps).config? else none := by
  rw [List.getElem?_map, getElem?_searchPaths, offered]
  split
  · cases Path.above start steps <;> rfl
  · rfl

/-- A search through a list of files ends at the first that can be used. -/
theorem nearest_eq_iff {files : List ConfigFile} {config : Config} :
    nearest files = config ↔
      (∃ i : Nat, files[i]?.bind ConfigFile.config? = some config ∧
          ∀ j < i, files[j]?.bind ConfigFile.config? = none) ∨
        (∀ i : Nat, files[i]?.bind ConfigFile.config? = none) ∧ config = default := by
  induction files with
  | nil => simp [nearest, eq_comm]
  | cons file rest ih =>
    cases hfile : file.config? with
    | some settings =>
      have hnearest : nearest (file :: rest) = settings := by simp [nearest, hfile]
      rw [hnearest]
      constructor
      · rintro rfl
        exact .inl ⟨0, by simpa using hfile, by simp⟩
      · rintro (⟨i, hi, hbefore⟩ | ⟨hnone, -⟩)
        · cases i with
          | zero => simpa [hfile] using hi
          | succ i => simpa [hfile] using hbefore 0 (by omega)
        · simpa [hfile] using hnone 0
    | none =>
      have hnearest : nearest (file :: rest) = nearest rest := by simp [nearest, hfile]
      rw [hnearest, ih]
      refine or_congr ⟨?_, ?_⟩ (and_congr_left fun _ => ⟨fun h i => ?_, fun h i => h (i + 1)⟩)
      · rintro ⟨i, hi, hbefore⟩
        refine ⟨i + 1, hi, fun j hj => ?_⟩
        cases j with
        | zero => simpa using hfile
        | succ j => exact hbefore j (by omega)
      · rintro ⟨i, hi, hbefore⟩
        cases i with
        | zero => simp [hfile] at hi
        | succ i => exact ⟨i, hi, fun j hj => hbefore (j + 1) (by omega)⟩
      · cases i with
        | zero => simpa using hfile
        | succ i => exact h i

theorem search_eq_iff {config : Config} :
    search offers start = config ↔
      (∃ steps < 10, (offered offers start steps).config? = some config ∧
          ∀ nearer < steps, (offered offers start nearer).config? = none) ∨
        (∀ steps < 10, (offered offers start steps).config? = none) ∧ config = default := by
  rw [search, nearest_eq_iff]
  simp only [config?_of_offered]
  refine or_congr (exists_congr fun steps => ⟨?_, ?_⟩) (and_congr_left fun _ => by simp)
  · rintro ⟨hfound, hbefore⟩
    by_cases hsteps : steps < 10
    · rw [if_pos hsteps] at hfound
      refine ⟨hsteps, hfound, fun nearer hnearer => ?_⟩
      have hnone := hbefore nearer hnearer
      rwa [if_pos (Nat.lt_trans hnearer hsteps)] at hnone
    · rw [if_neg hsteps] at hfound
      cases hfound
  · rintro ⟨hsteps, hfound, hbefore⟩
    refine ⟨by rw [if_pos hsteps, hfound], fun nearer hnearer => ?_⟩
    rw [if_pos (Nat.lt_trans hnearer hsteps), hbefore nearer hnearer]

/-- The search looks into ten directories, the start and those above it. The first usable file on
this way decides: files that cannot be used are passed over, and where none can be used the settings
are the default ones. So the nearest file of all decides as long as it can be used. -/
theorem first_usable_file_decides (offers : String → ConfigFile) (start : String) :
    (∀ steps, (searchPaths start)[steps]? =
      if steps < 10 then
        (Path.above start steps).map fun directory => Path.join directory configFileName
      else none) ∧
    (∀ config, search offers start = config ↔
      (∃ steps < 10, (offered offers start steps).config? = some config ∧
          ∀ nearer < steps, (offered offers start nearer).config? = none) ∨
        (∀ steps < 10, (offered offers start steps).config? = none) ∧ config = default) ∧
    ∀ steps < 10, ∀ config, offered offers start steps = .usable config →
      (∀ nearer < steps, offered offers start nearer = .absent) →
        search offers start = config := by
  refine ⟨getElem?_searchPaths start, fun _ => search_eq_iff, ?_⟩
  intro steps hsteps config hfound habsent
  refine search_eq_iff.2 (.inl ⟨steps, hsteps, by rw [hfound]; rfl, fun nearer hnearer => ?_⟩)
  rw [habsent nearer hnearer]
  rfl

def twoFiles (inner outer : ConfigFile) (path : String) : ConfigFile :=
  if path = "a/.mixin-remap.toml" then inner
  else if path = ".mixin-remap.toml" then outer
  else .absent

def warning : Config := ⟨.warn, ⟨true, []⟩⟩

/-- No file in the directory itself, one in its parent and one above that. -/
theorem parent_file_hides_farther_one :
    (1 < 10 ∧ offered (twoFiles (.usable warning) (.usable default)) "a/b" 1 = .usable warning ∧
      ∀ nearer < 1,
        offered (twoFiles (.usable warning) (.usable default)) "a/b" nearer = .absent) ∧
    search (twoFiles (.usable warning) (.usable default)) "a/b" = warning := by
  have hparent :
      offered (twoFiles (.usable warning) (.usable default)) "a/b" 1 = .usable warning := by
    decide +kernel
  have hbelow : ∀ nearer < 1,
      offered (twoFiles (.usable warning) (.usable default)) "a/b" nearer = .absent := by
    decide +kernel
  exact ⟨⟨by decide, hparent, hbelow⟩,
    (first_usable_file_decides _ _).2.2 1 (by decide) warning hparent hbelow⟩

/-- The nearest file does not always decide: a broken one gives way to the file above it, and a file
ten directories up is never reached although it is the only one. -/
theorem nearest_file_is_ignored :
    (offered (twoFiles .unusable (.usable warning)) "a" 0 = .unusable ∧
      search (twoFiles .unusable (.usable warning)) "a" ≠ default) ∧
    offered (twoFiles .absent (.usable warning)) "b/c/d/e/f/g/h/i/j/k" 10 = .usable warning ∧
    (∀ nearer < 10,
      offered (twoFiles .absent (.usable warning)) "b/c/d/e/f/g/h/i/j/k" nearer = .absent) ∧
    search (twoFiles .absent (.usable warning)) "b/c/d/e/f/g/h/i/j/k" ≠ warning := by
  decide +kernel

end Config

end MixinNaming
