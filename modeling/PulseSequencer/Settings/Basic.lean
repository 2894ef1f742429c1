import PulseSequencer.Compiler
import PulseSequencer.Description.Basic
import PulseSequencer.Text.White

/-!
Settings: the clock and width of the sequencer, where it is found, and what is logged.
-/

namespace PulseSequencer

structure CompilerSettings where
  /-- the clock period in seconds -/
  clockPeriod : Binary64 := Compiler.defaultClockPeriod
  /-- the number of channels of sequences that do not say it -/
  nchannels : Nat := Description.defaultNchannels
  deriving DecidableEq

/-- How many words go to the sequencer at once if nothing else is said. -/
def defaultBatchSize : Nat := 128

structure TransportSettings where
  resource : String := "RIO0"
  bitfile : Option String := none
  batchSize : Nat := defaultBatchSize
  deriving DecidableEq

structure LoggingSettings where
  level : String := "info"
  format : String := "text"
  deriving DecidableEq

structure Settings where
  compiler : CompilerSettings := {}
  transport : TransportSettings := {}
  logging : LoggingSettings := {}
  deriving DecidableEq

namespace Settings

instance : Inhabited Settings := ⟨{}⟩

/-- The settings make sense; the first fault in the order of the fields is reported. -/
def validate (s : Settings) : Except Error Unit := do
  let worded (r : Except ValidationError Unit) : Except Error Unit :=
    r.mapError fun e => .config e.message
  worded (Validation.clockPeriod s.compiler.clockPeriod)
  worded (Validation.channelCount s.compiler.nchannels)
  if s.transport.batchSize = 0 then throw (.config "batch_size cannot be 0")
  if Text.isVoid s.transport.resource then throw (.config "resource cannot be empty")
  let format := s.logging.format
  if format ≠ "text" ∧ format ≠ "json" then
    throw (.config s!"unknown log format '{format}' (expected text or json)")

end Settings

/-- The compiler for the clock of the settings. -/
def CompilerSettings.compiler (s : CompilerSettings) : Except ValidationError Compiler :=
  Compiler.ofClockPeriod s.clockPeriod

end PulseSequencer
