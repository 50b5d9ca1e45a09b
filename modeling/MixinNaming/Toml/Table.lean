import MixinNaming.Toml.Basic
/-! Tables while a document is read. A header may define a table once, even after tables inside it;
dotted keys may set a key only in a table that dotted keys made; a table that is written as a value
is closed. -/
namespace MixinNaming.Toml

/-- How a table came to be: on the way to another table, by dotted keys, or by its own header. -/
inductive Origin where
  | passing
  | dotted
  | header
  deriving DecidableEq, Repr

inductive Node where
  | value (value : Toml)
  | table (origin : Origin) (fields : List (String × Node))
  | series (tables : List (List (String × Node)))

instance : Inhabited Node := ⟨.table .passing []⟩

abbrev Fields := List (String × Node)

/-- Changes or adds one field. -/
def updateField (key : String) (f : Option Node → Option Node) : Fields → Option Fields
  | [] => (f none).map fun node => [(key, node)]
  | field :: rest =>
    if field.1 = key then (f (some field.2)).map fun node => (key, node) :: rest
    else (updateField key f rest).map (field :: ·)

/-- Changes the last table of a series. -/
def updateLast (f : Fields → Option Fields) : List Fields → Option (List Fields)
  | [] => none
  | [last] => (f last).map fun last => [last]
  | first :: rest => (updateLast f rest).map (first :: ·)

/-- Whether a path may go through a table, where it may also end. Dotted keys go through tables that
no header defined, and end in those that dotted keys made. -/
def Origin.enters (origin made : Origin) (atEnd : Bool) : Bool :=
  match origin, made with
  | .dotted, .header => false
  | .dotted, .passing => !atEnd
  | _, _ => true

/-- Goes down a path and changes the table at its end; tables that are missing are made on the
way. The last table of a series stands for the series, but dotted keys may not end in it. -/
def descend (origin : Origin) (f : Fields → Option Fields) : List String → Fields → Option Fields
  | [], fields => f fields
  | key :: path, fields =>
    updateField key
      (fun
        | none => (descend origin f path []).map (.table origin)
        | some (.table made inner) =>
          if origin.enters made path.isEmpty then (descend origin f path inner).map (.table made)
          else none
        | some (.series tables) =>
          if origin = .dotted ∧ path = [] then none
          else (updateLast (descend origin f path) tables).map .series
        | some (.value _) => none)
      fields

/-- Sets a key that has no value yet. -/
def assign (key : String) (v : Toml) : Fields → Option Fields :=
  updateField key fun
    | none => some (.value v)
    | some _ => none

/-- Sets the value of dotted keys. -/
def assignPath (path : List String) (v : Toml) (fields : Fields) : Option Fields :=
  match path.getLast? with
  | none => none
  | some key => descend .dotted (assign key v) path.dropLast fields

/-- Defines the table of a header. -/
def defineTable (path : List String) (fields : Fields) : Option Fields :=
  match path.getLast? with
  | none => none
  | some key =>
    descend .passing
      (updateField key fun
        | none => some (.table .header [])
        | some (.table .passing inner) => some (.table .header inner)
        | some _ => none)
      path.dropLast fields

/-- Begins another table of a series. -/
def extendSeries (path : List String) (fields : Fields) : Option Fields :=
  match path.getLast? with
  | none => none
  | some key =>
    descend .passing
      (updateField key fun
        | none => some (.series [[]])
        | some (.series tables) => some (.series (tables ++ [[]]))
        | some _ => none)
      path.dropLast fields

mutual

def Node.toToml : Node → Toml
  | .value v => v
  | .table _ fields => .table (fieldsToToml fields)
  | .series tables => .list (seriesToToml tables)

def fieldsToToml : List (String × Node) → List (String × Toml)
  | [] => []
  | (key, node) :: rest => (key, node.toToml) :: fieldsToToml rest

def seriesToToml : List (List (String × Node)) → List Toml
  | [] => []
  | fields :: rest => .table (fieldsToToml fields) :: seriesToToml rest

end

end MixinNaming.Toml
