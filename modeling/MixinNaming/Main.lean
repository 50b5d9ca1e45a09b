import MixinNaming.CommandLine.Program
/-! The program: its commands on the real file system. -/
namespace MixinNaming.Main

def attempt {α : Type} (action : IO α) : IO (Option α) := do
  match ← action.toBaseIO with
  | .ok a => return some a
  | .error _ => return none

def disk : Disk IO where
  read path := attempt <| IO.FS.readFile path
  pathExists path := do return (← attempt <| IO.FS.Handle.mk path .read).isSome
  write path text := do return (← attempt <| IO.FS.writeFile path text).isSome

end MixinNaming.Main

def main (arguments : List String) : IO UInt32 := do
  let workingDirectory ← IO.currentDir
  let ending ← MixinNaming.CommandLine.run MixinNaming.Main.disk workingDirectory.toString arguments
  IO.print ending.output
  IO.eprint ending.error
  return ending.exitCode
