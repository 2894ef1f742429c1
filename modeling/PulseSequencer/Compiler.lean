import PulseSequencer.Program.Basic
import PulseSequencer.Sequence

/-!
From sequences to programs.

The switch times of all channels are counted in clock ticks from the start of the sequence and
merged in order of time.  The program waits for the trigger with the outputs of the first tick,
changes the outputs at each tick where some channel changes, waits for the rest of the period, and
starts again.
-/

namespace PulseSequencer

/-- The clock of the sequencer and, if declared, the length of the program in seconds. -/
structure Compiler where
  dt : Binary64
  duration : Option Binary64
  deriving DecidableEq

/-- Why a sequence has no program. -/
inductive CompileError where
  | invalid (cause : ValidationError)
  /-- more channels than output bits, which no accepted sequence has -/
  | tooManyChannels (n : Nat)
  /-- a switch before the start of the sequence, which no accepted sequence has -/
  | switchBeforeStart (t start : Binary64)
  deriving DecidableEq

def CompileError.message : CompileError → String
  | .invalid cause => cause.message
  | .tooManyChannels n => s!"{n} channels do not fit in the output field"
  | .switchBeforeStart t start =>
    "switch at " ++ Layout.scientific.write t ++ "s precedes start at " ++
      Layout.scientific.write start ++ "s"

namespace Compiler

/-- The clock period if none is given: ten nanoseconds. -/
def defaultClockPeriod : Binary64 := .ofRatio false 1 (10 ^ 8)

/-- How far from a tick, relative to its number, a time still counts as that tick. -/
def snapTolerance : Binary64 := .ofRatio false 1 (10 ^ 9)

/-- The longest period of a program. -/
def maxProgramTicks : Nat := 2 ^ 44

instance : Inhabited Compiler := ⟨⟨defaultClockPeriod, none⟩⟩

/-- A compiler for a clock of period `dt`. -/
def ofClockPeriod (dt : Binary64) : Except ValidationError Compiler := do
  Validation.clockPeriod dt
  return ⟨dt, none⟩

/-- Declares the length of the program, in place of the stop time of the sequence. -/
def withDuration (c : Compiler) (duration : Binary64) : Except ValidationError Compiler := do
  Validation.programDuration duration
  return { c with duration := some duration }

/-- The clock tick of a time.  A time close to a tick counts as that tick, any other as the tick
before it. -/
def quantize (c : Compiler) (t : Binary64) : Int :=
  let x := t / c.dt
  let nearest := x.round
  if (x - nearest).abs ≤ snapTolerance * nearest.abs.greater Binary64.one then
    nearest.toInt64Range
  else x.floor.toInt64Range

/-- The largest number of ticks that is reported. -/
def maxReportedTicks : Nat := 2 ^ 64 - 1

/-- The clock ticks from the start of a sequence to a time. -/
def offset (c : Compiler) (start t : Binary64) : Except CompileError Nat :=
  let ticks := c.quantize t - c.quantize start
  if ticks < 0 then .error (.switchBeforeStart t start)
  else if (maxProgramTicks : Int) < ticks then
    .error (.invalid
      (.resourceLimit "program ticks" maxProgramTicks (min ticks.toNat maxReportedTicks)))
  else .ok ticks.toNat

end Compiler

namespace Sequence

/-- All switches of a sequence with the numbers of their channels, in order of time; of the two
zeros the negative one comes first. -/
def events (s : Sequence) : List (Binary64 × Nat) :=
  (s.channels.zipIdx.flatMap fun (c, i) => c.switches.map (·, i)).mergeSort
    fun a b => a.1.totalLe b.1

/-- The default levels as a word of outputs. -/
def defaultOutputs (s : Sequence) : Word :=
  s.channels.zipIdx.foldl (fun w (c, i) => if c.default then w ||| 1#32 <<< i else w) 0

end Sequence

/-- The channels that change at a clock tick. -/
structure Flip where
  tick : Nat
  mask : Word
  deriving DecidableEq

namespace Flip

/-- Joins neighbours at the same tick; a channel that changes twice does not change. -/
def merge : List Flip → List Flip
  | [] => []
  | f :: rest =>
    match merge rest with
    | g :: others =>
      if f.tick = g.tick then ⟨f.tick, f.mask ^^^ g.mask⟩ :: others else f :: g :: others
    | [] => [f]

/-- Those changes at the first tick are part of the outputs that wait for the trigger. -/
def splitFirst (outputs : Word) : List Flip → Word × List Flip
  | ⟨0, mask⟩ :: rest => (outputs ^^^ mask, rest)
  | flips => (outputs, flips)

/-- The instructions after the trigger: `now` is the tick reached and `outputs` what is driven.
Changes at or after the end of the period have no room. -/
def toInstructions (period now : Nat) (outputs : Word) : List Flip → List Instruction
  | [] => splitWait (period - now) ++ [.jump 0]
  | ⟨tick, mask⟩ :: rest =>
    let next := outputs ^^^ mask
    if period ≤ tick then splitWait (period - now) ++ [.jump 0]
    else if next = outputs then toInstructions period now outputs rest
    else splitWait (tick - now) ++ .setOutputs next :: toInstructions period tick next rest

end Flip

namespace Compiler

/-- The changes of all channels, tick by tick. -/
def flips (c : Compiler) (s : Sequence) : Except CompileError (List Flip) := do
  let switches ← s.events.mapM fun (t, i) => do
    return (⟨← c.offset s.startTime t, 1#32 <<< i⟩ : Flip)
  return Flip.merge switches

/-- The time at which the program is declared to end. -/
def declaredEnd (c : Compiler) (s : Sequence) : Binary64 :=
  match c.duration with
  | some duration => s.startTime + duration
  | none => s.stopTime

/-- The program of a sequence. -/
def compile (c : Compiler) (s : Sequence) : Except CompileError Program := do
  if Validation.maxChannels < s.nchannels then throw (.tooManyChannels s.nchannels)
  let flips ← c.flips s
  let declared ← c.offset s.startTime (c.declaredEnd s)
  let last := (flips.getLast?.map Flip.tick).getD 0
  let period := max declared last
  let (idle, rest) := Flip.splitFirst s.defaultOutputs flips
  return {
    instructions := .triggerWait idle :: Flip.toInstructions period 0 idle rest
    periodTicks := period
    warnings := if declared < last then [.durationExceeded declared last] else [] }

end Compiler

end PulseSequencer
