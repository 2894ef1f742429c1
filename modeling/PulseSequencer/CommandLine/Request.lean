import PulseSequencer.CommandLine.Argument
import PulseSequencer.Settings.Load

/-!
What a command line asks for.
-/

namespace PulseSequencer
namespace CommandLine

/-- The form in which a program is shown. -/
inductive Format where
  | text
  | json
  | words
  deriving DecidableEq, Repr

def Format.ofString? : String → Option Format
  | "text" => some .text
  | "json" => some .json
  | "words" => some .words
  | _ => none

inductive Command where
  | compile (file : String) (dt duration : Option Binary64) (format : Format)
  /-- show the settings in force -/
  | settings
  /-- say whether the settings are valid -/
  | validate
  deriving DecidableEq

/-- A command with the options that all commands have. -/
structure Request where
  settingsPath : Option String
  logLevel : Option String
  command : Command
  deriving DecidableEq

inductive Invocation where
  | help
  | version
  | request (r : Request)
  deriving DecidableEq

/-- The options of every command. -/
def sharedOptions : List OptionSpec :=
  [⟨"config", some 'c', fun s => !s.isEmpty⟩, ⟨"log-level", none, fun _ => true⟩]

def helpFlag : String × Char × Flag := ("help", 'h', .help)

def commandNames : List String := ["compile", "config", "validate", "help"]

/-- What stands before the command. -/
def mainSpec : CommandSpec :=
  ⟨sharedOptions, [helpFlag, ("version", 'V', .version)], 0, commandNames⟩

def isNumber (s : String) : Bool := (Binary64.ofString? s).isSome

def compileSpec : CommandSpec :=
  ⟨sharedOptions ++ [⟨"dt", none, isNumber⟩, ⟨"duration", none, isNumber⟩,
    ⟨"format", none, fun s => (Format.ofString? s).isSome⟩], [helpFlag], 1, []⟩

/-- The commands that take no arguments of their own. -/
def plainSpec : CommandSpec := ⟨sharedOptions, [helpFlag], 0, []⟩

/-- The clock period given with the command, or else in the environment, where it has to be a
number. -/
def clockPeriod? (g : Given) (env : Environment) : Option (Option Binary64) :=
  match (g.options.lookup "dt").or (env.lookup "RIOPULSE_CLOCK_PERIOD") with
  | none => some none
  | some s => (Binary64.ofString? s).map some

def compile? (g : Given) (env : Environment) : Option Command := do
  let file ← g.operands.head?
  let dt ← clockPeriod? g env
  let format ← Format.ofString? ((g.options.lookup "format").getD "text")
  return .compile file dt ((g.options.lookup "duration").bind Binary64.ofString?) format

/-- A command after its name.  An option that stands before and after the name counts as given
after it. -/
def command? (before : Given) (spec : CommandSpec)
    (build : Given → Option Command) (args : List String) : Option Invocation := do
  match ← spec.read {} args with
  | (after, .finished) =>
    let shared (name : String) : Option String :=
      (after.options.lookup name).or (before.options.lookup name)
    return .request ⟨shared "config", shared "log-level", ← build after⟩
  | (_, .flag .help) => return .help
  | _ => none

/-- Reads a command line; `none` if it cannot be understood. -/
def Invocation.parse? (env : Environment) (args : List String) : Option Invocation := do
  match ← mainSpec.read {} args with
  | (_, .finished) => none
  | (_, .flag .help) => return .help
  | (_, .flag .version) => return .version
  | (before, .command "compile" rest) =>
    command? before compileSpec (compile? · env) rest
  | (before, .command "config" rest) =>
    command? before plainSpec (fun _ => some .settings) rest
  | (before, .command "validate" rest) =>
    command? before plainSpec (fun _ => some .validate) rest
  | (_, .command _ rest) =>
    if rest.length ≤ 1 ∧ rest.all commandNames.contains then return .help else none

end CommandLine
end PulseSequencer
