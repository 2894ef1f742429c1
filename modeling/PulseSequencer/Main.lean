import PulseSequencer.CommandLine.Run

/-!
The command line program: reads the files and variables that a command may need, runs it, and
prints what it leaves behind.
-/

namespace PulseSequencer

/-- What stands under a path, if anything. -/
def readEntry (path : String) : IO (Option FolderEntry) := do
  try
    let bytes ← IO.FS.readBinFile path
    return some (.file bytes)
  catch
    | .noFileOrDirectory .. => return none
    | .inappropriateType _ code _ => return if code = 20 then none else some .directory
    | e => return some (.unreadable (toString e))

def readFolder (paths : List String) : IO Folder := do
  let entries ← paths.filterMapM fun path => do
    return (← readEntry path).map fun entry => (path, entry)
  return ⟨entries⟩

def readEnvironment : IO Environment :=
  Settings.variableNames.filterMapM fun name => do
    return (← IO.getEnv name).map fun value => (name, value)

/-- Runs a command line. -/
def runCommandLine (args : List String) : IO UInt32 := do
  let env ← readEnvironment
  let outcome ← match CommandLine.Invocation.parse? env args with
    | none => pure CommandLine.Outcome.misused
    | some invocation => do
      let folder ← readFolder invocation.paths
      pure (invocation.run folder env)
  (← IO.getStderr).putStr outcome.stderr
  (← IO.getStdout).putStr outcome.stdout
  return outcome.exitCode.toUInt32

end PulseSequencer

def main (args : List String) : IO UInt32 := PulseSequencer.runCommandLine args
