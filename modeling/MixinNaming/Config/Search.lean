import MixinNaming.Config.Reader
/-! Looking for a configuration file in a directory and the directories above it. A file that cannot
be used counts as absent and the search goes on. -/
namespace MixinNaming

namespace Path

/-- Whether a piece between slashes names something. A lone dot does only at the front of a
relative path. -/
def isComponent (atFront : Bool) (piece : String) : Bool :=
  piece ≠ "" && (piece ≠ "." || atFront)

/-- Pieces from last to first, without those that name nothing up to the first that does. -/
def dropEmpty : List String → List String
  | [] => []
  | [piece] => if isComponent true piece then [piece] else []
  | piece :: rest => if isComponent false piece then piece :: rest else dropEmpty rest

def pieces (path : String) : List String := (Text.splitAll '/' path.toList).map .ofList

/-- The directory above, if the path names one: the path up to its last component. -/
def parent? (path : String) : Option String :=
  match dropEmpty (pieces path).reverse with
  | [] => none
  | _ :: above =>
    match dropEmpty above with
    | [] => some (if path.toList.head? = some '/' then "/" else "")
    | above => some (String.intercalate "/" above.reverse)

/-- The directory and those above it, nearest first, at most `depth` of them. -/
def ancestors (start : String) : (depth : Nat) → List String
  | 0 => []
  | depth + 1 =>
    start ::
      (match parent? start with
       | some above => ancestors above depth
       | none => [])

def join (directory name : String) : String :=
  if directory = "" then name
  else if directory.toList.getLast? = some '/' then directory ++ name
  else directory ++ "/" ++ name

end Path

/-- What one directory offers. -/
inductive ConfigFile where
  | absent
  | unusable
  | usable (config : Config)
  deriving DecidableEq, Repr

namespace ConfigFile

/-- A file by its contents, which are missing when it cannot be read. -/
def ofContents : Option String → ConfigFile
  | none => .absent
  | some text =>
    match Config.parse text with
    | .ok config => .usable config
    | .error _ => .unusable

def config? : ConfigFile → Option Config
  | .usable config => some config
  | _ => none

end ConfigFile

namespace Config

def searchDepth : Nat := 10

/-- The files that a search from a directory looks at, nearest first. -/
def searchPaths (start : String) : List String :=
  (Path.ancestors start searchDepth).map fun directory => Path.join directory configFileName

/-- The settings of the first usable file, or the default ones. -/
def nearest (files : List ConfigFile) : Config :=
  (files.findSome? ConfigFile.config?).getD default

end Config

end MixinNaming
