/-! What a command needs of the file system, and a file system in memory: a working directory that
holds files by their path components, with the directories that those paths imply. -/
namespace MixinNaming

structure Disk (m : Type → Type) where
  read : String → m (Option String)
  pathExists : String → m Bool
  write : String → String → m Bool

structure Files where
  entries : List (List String × String)
  deriving Repr

namespace Files

abbrev Path := List String

def content? (f : Files) (p : Path) : Option String := f.entries.lookup p

def isDirectory (f : Files) (p : Path) : Bool :=
  p.isEmpty || f.entries.any fun e => p.isPrefixOf e.1 && p.length < e.1.length

/-- One step from a directory; nothing lies above the working directory. -/
def step (f : Files) (base : Path) (piece : String) : Option Path :=
  if !f.isDirectory base then none
  else if piece = "" ∨ piece = "." then some base
  else if piece = ".." then
    match base with
    | [] => none
    | _ => some base.dropLast
  else some (base ++ [piece])

/-- The place that a relative path names, if every directory on the way is there. -/
def locate (f : Files) (path : String) : Option Path :=
  if path = "" ∨ path.toList.head? = some '/' then none
  else (path.splitOn "/").foldlM f.step []

def read (f : Files) (path : String) : Option String := (f.locate path).bind f.content?

def pathExists (f : Files) (path : String) : Bool :=
  (f.locate path).any fun p => f.isDirectory p || (f.content? p).isSome

def put (p : Path) (text : String) : List (Path × String) → List (Path × String)
  | [] => [(p, text)]
  | e :: rest => if e.1 = p then (p, text) :: rest else e :: put p text rest

/-- Writes a file in a directory that is there; a directory itself cannot be written. -/
def write (f : Files) (path text : String) : Option Files :=
  match f.locate path with
  | none => none
  | some p => if f.isDirectory p then none else some ⟨put p text f.entries⟩

def disk : Disk (StateM Files) where
  read path := do return (← get).read path
  pathExists path := do return (← get).pathExists path
  write path text := do
    match (← get).write path text with
    | some f => do
      set f
      return true
    | none => return false

end Files

end MixinNaming
