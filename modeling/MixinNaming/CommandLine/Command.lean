import MixinNaming.CommandLine.Options
/-! The commands of the program and the options they take. -/
namespace MixinNaming.CommandLine

structure RemapArguments where
  mixin : String
  mappings : String
  hierarchy : String
  config : Option String
  keepGoing : Bool
  output : Option String
  deriving DecidableEq, Repr

structure ResolveArguments where
  selector : String
  targets : List String
  mappings : String
  hierarchy : String
  methodsOnly : Bool
  deriving DecidableEq, Repr

inductive Command where
  | remap (arguments : RemapArguments)
  | resolve (arguments : ResolveArguments)
  | init (force : Bool)
  deriving DecidableEq, Repr

structure Invocation where
  verbosity : Nat
  command : Command
  deriving DecidableEq, Repr

def pathOption (name : String) (short : Option Char) (required : Bool) : Parameter :=
  ⟨name, short, .value, required, false⟩

def switchOption (name : String) (short : Option Char) : Parameter :=
  ⟨name, short, .switch, false, true⟩

def verboseOption : Parameter := ⟨"verbose", some 'v', .count, false, true⟩
def helpOption : Parameter := ⟨"help", some 'h', .help, false, true⟩
def versionOption : Parameter := ⟨"version", some 'V', .version, false, true⟩

def commandNames : List String := ["remap", "resolve", "init", "help"]

def rootLevel : Level := ⟨[verboseOption, helpOption, versionOption], none, commandNames⟩

def remapLevel : Level :=
  ⟨[pathOption "class" none true, pathOption "mappings" none true,
      pathOption "hierarchy" none true, pathOption "config" none false,
      switchOption "keep-going" none, pathOption "output" (some 'o') false, verboseOption,
      helpOption], none, []⟩

def resolveLevel : Level :=
  ⟨[⟨"target", none, .values, true, true⟩, pathOption "mappings" none true,
      pathOption "hierarchy" none true, switchOption "methods-only" none, verboseOption,
      helpOption], some ⟨"selector", none, .value, true, true⟩, []⟩

def initLevel : Level := ⟨[switchOption "force" (some 'f'), verboseOption, helpOption], none, []⟩

def required (entries : Entries) (name : String) : Except UsageError String :=
  match valueOf? entries name with
  | some v => .ok v
  | none => .error .missingRequiredArgument

def remapCommand (e : Entries) : Except UsageError Command := do
  return .remap ⟨← required e "class", ← required e "mappings", ← required e "hierarchy",
    valueOf? e "config", e.contains "keep-going", valueOf? e "output"⟩

def resolveCommand (e : Entries) : Except UsageError Command := do
  return .resolve ⟨← required e "selector", valuesOf e "target", ← required e "mappings",
    ← required e "hierarchy", e.contains "methods-only"⟩

def maxVerbosity : Nat := 255

/-- The flag may stand before or after the command; what stands after it counts, if anything
does. -/
def verbosity (root sub : Entries) : Nat :=
  let inner := countOf sub "verbose"
  min maxVerbosity (if inner = 0 then countOf root "verbose" else inner)

/-- Help on commands may name one of them. -/
def helpOn : List String → UsageError
  | [] => .helpRequested
  | [topic] => if commandNames.contains topic then .helpRequested else .invalidSubcommand
  | _ => .invalidSubcommand

def readCommand (root : Entries) (name : String) (arguments : List String) :
    Except UsageError Invocation := do
  let (level, build) ←
    match name with
    | "remap" => .ok (remapLevel, remapCommand)
    | "resolve" => .ok (resolveLevel, resolveCommand)
    | "init" => .ok (initLevel, fun e => .ok (.init (e.contains "force")))
    | _ => .error (helpOn arguments)
  let entries ← readLevel level arguments
  return ⟨verbosity root entries, ← build entries⟩

/-- Reads the arguments after the name of the program. -/
def parse (arguments : List String) : Except UsageError Invocation := do
  let (s, found) ← readArguments rootLevel arguments start
  match found with
  | some (name, rest) => readCommand s.entries name rest
  | none =>
    let s ← settle s
    .error (if s.entries = [] then .nothingGiven else .missingSubcommand)

end MixinNaming.CommandLine
