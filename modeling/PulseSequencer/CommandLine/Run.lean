import PulseSequencer.CommandLine.Request
import PulseSequencer.Description.Load
import PulseSequencer.Error.Report

/-!
Running a command: the files and the environment in, an exit code and two texts out.
-/

namespace PulseSequencer
namespace CommandLine

/-- What a command leaves behind. -/
structure Outcome where
  exitCode : Nat
  stdout : String
  stderr : String
  deriving DecidableEq

namespace Outcome

def printed (s : String) : Outcome := ⟨0, s, ""⟩

/-- A failure ends the command and is reported in full. -/
def failed (e : Error) : Outcome := ⟨1, "", "Error: " ++ e.report ++ "\n"⟩

/-- A command line that cannot be understood. -/
def misused : Outcome :=
  ⟨2, "", "error: invalid arguments\n\nFor more information, try '--help'.\n"⟩

/-- A state that no accepted input leads to. -/
def aborted (message : String) : Outcome := ⟨101, "", message ++ "\n"⟩

end Outcome

/-- Each text on a line of its own. -/
def lines (xs : List String) : String := xs.foldl (fun acc s => acc ++ s ++ "\n") ""

/-- The instructions with their numbers, and the length of the program. -/
def listing (p : Program) (c : Compiler) : String :=
  let numbered := p.instructions.mapIdx fun n i =>
    Text.alignRight 6 (toString n) ++ "  " ++ i.text
  let seconds := Layout.scientific.write (Binary64.ofNat p.periodTicks * c.dt)
  lines numbered ++
    s!"# {p.instructions.length} instructions, period {p.periodTicks} ticks ({seconds} s)\n"

/-- A program in the form that is asked for. -/
def render (p : Program) (c : Compiler) : Format → Except WidePayload String
  | .text => .ok (listing p c)
  | .json => .ok (p.toJson.indented ++ "\n")
  | .words => p.encode.map fun ws => lines (ws.map fun w => Text.hex32 w.toNat)

/-- The sequence of a file, and the compiler for it. -/
def prepare (folder : Folder) (s : Settings) (file : String) (duration : Option Binary64) :
    Except Error (Compiler × Sequence) := do
  s.validate
  let clock ← s.compiler.compiler.mapError Error.validation
  let compiler ← match duration with
    | some d => (clock.withDuration d).mapError Error.validation
    | none => pure clock
  let description ← Description.load folder file
  let sequence ← (description.build s.compiler.nchannels).mapError Error.validation
  return (compiler, sequence)

/-- Compiles a file and shows the program; warnings go to the second text. -/
def runCompile (folder : Folder) (s : Settings) (file : String) (duration : Option Binary64)
    (format : Format) : Outcome :=
  match prepare folder s file duration with
  | .error e => .failed e
  | .ok (compiler, sequence) =>
    match compiler.compile sequence with
    | .error (.invalid cause) => .failed (.validation cause)
    | .error e => .aborted e.message
    | .ok p =>
      match render p compiler format with
      | .error e => .aborted e.message
      | .ok text => ⟨0, text, lines (p.warnings.map fun w => "warning: " ++ w.message)⟩

/-- Runs a command under settings that have been loaded. -/
def Command.run (folder : Folder) (s : Settings) : Command → Outcome
  | .compile file dt duration format =>
    let s := match dt with
      | some dt => { s with compiler := { s.compiler with clockPeriod := dt } }
      | none => s
    runCompile folder s file duration format
  | .settings => .printed (s.toYaml ++ "\n")
  | .validate =>
    match s.validate with
    | .ok () => .printed "Configuration is valid\n"
    | .error e => ⟨1, "", e.message ++ "\n"⟩

def Request.run (folder : Folder) (env : Environment) (r : Request) : Outcome :=
  match Settings.load folder env r.settingsPath with
  | .error e => .failed e
  | .ok s =>
    let s := match r.logLevel with
      | some level => { s with logging := { s.logging with level := level } }
      | none => s
    r.command.run folder s

/-- The files that a request may read. -/
def Request.paths (r : Request) : List String :=
  let file := match r.command with
    | .compile file .. => [file]
    | _ => []
  (match r.settingsPath with
    | some path => [path]
    | none => Settings.defaultPaths) ++ file

def Invocation.paths : Invocation → List String
  | .request r => r.paths
  | _ => []

def versionText : String := "riopulse 0.1.0\n"

def helpText : String :=
  lines ["Compile multi-channel digital pulse sequences into sequencer programs", "",
    "Usage: riopulse [OPTIONS] <COMMAND>", "",
    "Commands:",
    "  compile   Compile a sequence file",
    "  config    Show effective configuration",
    "  validate  Validate configuration file"]

/-- Runs what a command line asks for. -/
def Invocation.run (folder : Folder) (env : Environment) : Invocation → Outcome
  | .help => .printed helpText
  | .version => .printed versionText
  | .request r => r.run folder env

/-- Reads and runs a command line. -/
def run (folder : Folder) (env : Environment) (args : List String) : Outcome :=
  match Invocation.parse? env args with
  | none => .misused
  | some invocation => invocation.run folder env

end CommandLine
end PulseSequencer
