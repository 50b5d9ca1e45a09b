/-! Options of a command line. An option may be a switch, a counted flag or take a value, which
stands after it, after an equals sign, or right after its one-letter name. A value that is waited
for is entered only when something follows it or the line ends. After `--` every argument stands
for itself. -/
namespace MixinNaming.CommandLine

inductive UsageError where
  | missingRequiredArgument
  | unknownArgument
  | argumentConflict
  | invalidValue
  | tooManyValues
  | invalidSubcommand
  | missingSubcommand
  | nothingGiven
  | helpRequested
  | versionRequested
  deriving DecidableEq, Repr

inductive Action where
  | count
  | switch
  | value
  | values
  | help
  | version
  deriving DecidableEq, Repr

/-- An option or a place for an argument without a name. -/
structure Parameter where
  name : String
  short : Option Char
  action : Action
  required : Bool
  acceptsEmpty : Bool
  deriving DecidableEq, Repr

structure Level where
  options : List Parameter
  positional : Option Parameter
  subcommands : List String

/-- What the line says so far: every entry of a parameter, in order, with its value. -/
abbrev Entries := List (String × String)

structure Progress where
  entries : Entries
  pending : Option (Parameter × Option String)
  positionalTaken : Bool
  trailing : Bool

namespace Action

def takesValue : Action → Bool
  | .value | .values => true
  | _ => false

def repeats : Action → Bool
  | .count | .values => true
  | _ => false

end Action

def Entries.contains (entries : Entries) (name : String) : Bool := entries.any (·.1 == name)

/-- Enters one use of a parameter. -/
def enter (p : Parameter) (v : String) (entries : Entries) : Except UsageError Entries :=
  if !p.action.repeats && entries.contains p.name then .error .argumentConflict
  else if p.action.takesValue && !p.acceptsEmpty && v = "" then .error .invalidValue
  else .ok (entries ++ [(p.name, v)])

/-- Enters the value that is still waiting. -/
def settle (s : Progress) : Except UsageError Progress :=
  match s.pending with
  | none => .ok s
  | some (_, none) => .error .invalidValue
  | some (p, some v) => do return { s with entries := ← enter p v s.entries, pending := none }

def enterNow (p : Parameter) (v : String) (s : Progress) : Except UsageError Progress := do
  let s ← settle s
  return { s with entries := ← enter p v s.entries }

/-- An option without a value of its own. -/
def useFlag (p : Parameter) (s : Progress) : Except UsageError Progress :=
  match p.action with
  | .help => do
    let _ ← settle s
    .error .helpRequested
  | .version => do
    let _ ← settle s
    .error .versionRequested
  | _ => enterNow p "" s

def awaitValue (p : Parameter) (s : Progress) : Except UsageError Progress := do
  return { ← settle s with pending := some (p, none) }

def splitAtEquals (cs : List Char) : List Char × Option (List Char) :=
  match cs.dropWhile (· ≠ '=') with
  | [] => (cs, none)
  | _ :: after => (cs.takeWhile (· ≠ '='), some after)

def readLong (level : Level) (cs : List Char) (s : Progress) : Except UsageError Progress :=
  let (name, attached) := splitAtEquals cs
  match level.options.find? fun p => p.name.toList == name with
  | none => .error .unknownArgument
  | some p =>
    match p.action.takesValue, attached with
    | true, some v => enterNow p (.ofList v) s
    | true, none => awaitValue p s
    | false, some _ => .error .tooManyValues
    | false, none => useFlag p s

/-- A group of one-letter options; the rest of the group is the value of one that takes a value. -/
def readShort (level : Level) : List Char → Progress → Except UsageError Progress
  | [], s => .ok s
  | c :: rest, s =>
    match level.options.find? fun p => p.short == some c with
    | none => .error .unknownArgument
    | some p =>
      if p.action.takesValue then
        match rest with
        | [] => awaitValue p s
        | '=' :: v => enterNow p (.ofList v) s
        | v => enterNow p (.ofList v) s
      else do readShort level rest (← useFlag p s)

/-- An argument that no parameter takes. -/
def strayArgument (level : Level) (s : Progress) (argument : String) : UsageError :=
  if level.subcommands.isEmpty || (s.trailing && level.subcommands.contains argument) then
    .unknownArgument
  else .invalidSubcommand

def readPlain (level : Level) (argument : String) (s : Progress) : Except UsageError Progress :=
  match level.positional with
  | some p =>
    if s.positionalTaken then .error (strayArgument level s argument)
    else do
      return { ← settle s with pending := some (p, some argument), positionalTaken := true }
  | none => .error (strayArgument level s argument)

/-- An argument before any `--`. -/
def readArgument (level : Level) (argument : String) (s : Progress) :
    Except UsageError Progress :=
  match argument.toList with
  | ['-', '-'] => .ok { s with trailing := true }
  | '-' :: '-' :: long => readLong level long s
  | '-' :: c :: short => readShort level (c :: short) s
  | _ =>
    match s.pending with
    | some (p, none) => .ok { s with pending := some (p, some argument) }
    | _ => readPlain level argument s

def isWaiting (s : Progress) : Bool :=
  match s.pending with
  | some (_, none) => true
  | _ => false

/-- Reads arguments up to the name of a subcommand, which is given with the arguments after it. -/
def readArguments (level : Level) :
    List String → Progress → Except UsageError (Progress × Option (String × List String))
  | [], s => .ok (s, none)
  | argument :: rest, s =>
    if s.trailing then do readArguments level rest (← readPlain level argument s)
    else if !isWaiting s && level.subcommands.contains argument then
      .ok (s, some (argument, rest))
    else do readArguments level rest (← readArgument level argument s)

def start : Progress := ⟨[], none, false, false⟩

/-- The entries of a level that has no subcommands; all that is required has to be there. -/
def readLevel (level : Level) (arguments : List String) : Except UsageError Entries := do
  let (s, _) ← readArguments level arguments start
  let s ← settle s
  let parameters := level.options ++ level.positional.toList
  if parameters.all fun p => !p.required || s.entries.contains p.name then return s.entries
  else .error .missingRequiredArgument

def valueOf? (entries : Entries) (name : String) : Option String := entries.lookup name

def valuesOf (entries : Entries) (name : String) : List String :=
  (entries.filter (·.1 == name)).map (·.2)

def countOf (entries : Entries) (name : String) : Nat := (valuesOf entries name).length

end MixinNaming.CommandLine
