import MixinNaming.ClassPass
import MixinNaming.CommandLine.Command
import MixinNaming.CommandLine.Files
import MixinNaming.Config.Search
import MixinNaming.Report
/-! What the commands do: they read documents, run, and say on the standard output or in a file what
came out. -/
namespace MixinNaming.CommandLine

inductive CommandError where
  | unreadable (path : String)
  | malformed (path : String)
  | unwritable (path : String)
  | config (error : ConfigError)
  | remap (mixin : String) (fault : Fault)
  | resolve (fault : Fault)
  | configExists
  deriving DecidableEq, Repr

/-- A text whose lines are set off by four blanks. -/
def indent (text : String) : String :=
  "    " ++ String.intercalate "\n    " (text.splitOn "\n")

def CommandError.message : CommandError → String
  | .unreadable path => "Failed to read " ++ path
  | .malformed path => "Failed to parse " ++ path
  | .unwritable path => "Failed to write " ++ path
  | .config error => error.message
  | .remap mixin fault =>
    "Failed to remap " ++ mixin ++ "\n\nCaused by:\n" ++ indent fault.render
  | .resolve fault => fault.render
  | .configExists => "Configuration file already exists. Use --force to overwrite."

variable {m : Type → Type} [Monad m]

/-- A command ends with the text for the standard output. -/
abbrev Run (m : Type → Type) := ExceptT CommandError m

def load {α : Type} (disk : Disk m) (decode : Nat → Json → Option α) (path : String) :
    Run m α := do
  match ← disk.read path with
  | none => throw (.unreadable path)
  | some text =>
    match Decode.document decode text with
    | none => throw (.malformed path)
    | some a => return a

def save (disk : Disk m) (path text : String) : Run m Unit := do
  if !(← disk.write path text) then throw (.unwritable path)

/-- The settings of a file that is given, which has to be there and valid, or of the nearest one. -/
def loadConfig (disk : Disk m) (workingDirectory : String) (path : Option String) :
    Run m Config := do
  match path with
  | some path =>
    match ← disk.read path with
    | none => throw (.unreadable path)
    | some text =>
      match Config.parse text with
      | .error e => throw (.config e)
      | .ok config => return config
  | none =>
    let files ← (Config.searchPaths workingDirectory).mapM fun path => do
      return ConfigFile.ofContents (← disk.read path)
    return Config.nearest files

def remap (disk : Disk m) (workingDirectory : String) (a : RemapArguments) : Run m String := do
  let config ← loadConfig disk workingDirectory a.config
  let config := if a.keepGoing then config.withMissingFeatures .warn else config
  let mixin ← load disk Decode.mixinClass a.mixin
  let mappings ← load disk Decode.mappingTable a.mappings
  let hierarchy ← load disk Decode.hierarchy a.hierarchy
  let remapper : Remapper := ⟨mappings.naming, hierarchy, config.policy⟩
  let run := remapper.remapClass mixin
  match run.fault with
  | some fault => throw (.remap mixin.name fault)
  | none =>
    let text := (Report.mk run.value (Event.renames run.events)).render
    match a.output with
    | some path => do
      save disk path text
      return ""
    | none => return text ++ "\n"

def resolve (disk : Disk m) (a : ResolveArguments) : Run m String := do
  let mappings ← load disk Decode.mappingTable a.mappings
  let hierarchy ← load disk Decode.hierarchy a.hierarchy
  let remapper : Remapper := ⟨mappings.naming, hierarchy, .failFast⟩
  let targets := TargetSet.ofList (a.targets.map Text.slashed)
  let filter : DescriptorFilter := if a.methodsOnly then .methodOnly else .any
  let location := "Cannot resolve '" ++ a.selector ++ "': "
  match (remapper.resolveSelector location a.selector (some targets) filter).result with
  | .error fault => throw (.resolve fault)
  | .ok resolved => return resolved ++ "\n"

def init (disk : Disk m) (force : Bool) : Run m String := do
  let path := "./" ++ configFileName
  if !force then
    if ← disk.pathExists path then throw .configExists
  save disk path Config.defaultText
  return "Created " ++ configFileName ++ " configuration file\n"

def execute (disk : Disk m) (workingDirectory : String) : Command → Run m String
  | .remap a => remap disk workingDirectory a
  | .resolve a => resolve disk a
  | .init force => init disk force

def versionText : String := "mixin-remap 0.1.0\n"

def usageText : String :=
  "Usage: mixin-remap [-v]... <COMMAND>\n\nCommands:\n" ++
    "  remap    Remap the annotation metadata of one mixin class\n" ++
    "  resolve  Resolve one target selector against a set of target classes\n" ++
    "  init     Initialize a configuration file\n"

/-- What a finished program leaves behind. -/
structure Ending where
  exitCode : UInt32
  output : String
  error : String
  deriving DecidableEq, Repr

def UsageError.ending : UsageError → Ending
  | .versionRequested => ⟨0, versionText, ""⟩
  | .helpRequested => ⟨0, usageText, ""⟩
  | _ => ⟨2, "", usageText⟩

def run (disk : Disk m) (workingDirectory : String) (arguments : List String) : m Ending := do
  match parse arguments with
  | .error e => return e.ending
  | .ok invocation =>
    match ← (execute disk workingDirectory invocation.command).run with
    | .ok output => return ⟨0, output, ""⟩
    | .error e => return ⟨1, "", "Error: " ++ e.message ++ "\n"⟩

end MixinNaming.CommandLine
