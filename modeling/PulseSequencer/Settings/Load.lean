import PulseSequencer.Folder
import PulseSequencer.Settings.Yaml

/-!
Where settings come from: a file, and over it the environment.
-/

namespace PulseSequencer

/-- The variables of the environment with their values. -/
abbrev Environment := List (String × String)

namespace Settings

/-- The files that are tried if none is named. -/
def defaultPaths : List String := ["riopulse.yaml", "riopulse.yml", "/etc/riopulse/config.yaml"]

/-- The variables of the environment that count. -/
def variableNames : List String :=
  ["RIOPULSE_CLOCK_PERIOD", "RIOPULSE_CHANNELS", "RIOPULSE_RESOURCE", "RIOPULSE_BITFILE",
    "RIOPULSE_BATCH_SIZE", "RIOPULSE_LOG_LEVEL"]

/-- A natural number of 64 bits, with or without a plus sign. -/
def naturalOf? (s : String) : Option Nat := do
  let n ← Yaml.Meaning.inBase? 10 (match s.toList with
    | '+' :: digits => digits
    | digits => digits)
  if n < 2 ^ 64 then some n else none

/-- The value of a variable as far as it can be read. -/
def valueIn? {α : Type} (env : Environment) (name : String) (read : String → Option α) :
    Option α :=
  (env.lookup name).bind read

/-- The environment goes before the file; a variable that cannot be read does not count. -/
def override (s : Settings) (env : Environment) : Settings where
  compiler := {
    clockPeriod :=
      (valueIn? env "RIOPULSE_CLOCK_PERIOD" Binary64.ofString?).getD s.compiler.clockPeriod
    nchannels := (valueIn? env "RIOPULSE_CHANNELS" naturalOf?).getD s.compiler.nchannels }
  transport := {
    resource := (valueIn? env "RIOPULSE_RESOURCE" some).getD s.transport.resource
    bitfile := (valueIn? env "RIOPULSE_BITFILE" some).or s.transport.bitfile
    batchSize := (valueIn? env "RIOPULSE_BATCH_SIZE" naturalOf?).getD s.transport.batchSize }
  logging := {
    level := (valueIn? env "RIOPULSE_LOG_LEVEL" some).getD s.logging.level
    format := s.logging.format }

/-- The settings of a file that is there. -/
def ofFile (folder : Folder) (path : String) : Except Error Settings := do
  let s ← (folder.readText path).mapError Error.file
  match parseYaml? s with
  | some settings => return settings
  | none => throw Error.malformed

/-- The settings of the named file or else of the first default file that is there, under the
environment.  Where there is no file the defaults hold. -/
def load (folder : Folder) (env : Environment) (path? : Option String) : Except Error Settings := do
  let candidates := match path? with
    | some path => [path]
    | none => defaultPaths
  let s ← match candidates.find? folder.contains with
    | some path => ofFile folder path
    | none => pure {}
  return s.override env

end Settings
end PulseSequencer
