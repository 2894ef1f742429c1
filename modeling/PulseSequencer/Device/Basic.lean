import PulseSequencer.Error.Basic
import PulseSequencer.Program.Encoding

/-!
Sequencer hardware as its callers see it.

A device answers calls and may fail any of them.
-/

namespace PulseSequencer

/-- A call to the sequencer hardware. -/
inductive Call where
  | openSession (resource : String) (bitfile : Option String)
  /-- loads the bitfile onto the device -/
  | download
  /-- starts the loaded bitfile -/
  | run
  /-- says how many instructions will follow -/
  | count (n : Word)
  /-- hands over instructions -/
  | words (batch : List Word)
  /-- reads how many instructions the device still expects -/
  | pending
  /-- with the persistent trigger on, the program restarts after each loop -/
  | persistent (enabled : Bool)
  /-- the level of the software trigger line -/
  | software (level : Bool)
  | close
  deriving DecidableEq, Repr

/-- How a device with states `σ` answers: a failure, or the word that the call reads, which is
zero for calls that read nothing. -/
structure Device (σ : Type) where
  respond : Call → σ → Except TransportError Word × σ

/-- What came of some calls: their result, the calls in order, and the state of the device. -/
structure Exchange (σ α : Type) where
  result : Except TransportError α
  calls : List Call
  state : σ

namespace Exchange

variable {σ α β : Type}

def map (f : α → β) (e : Exchange σ α) : Exchange σ β :=
  { e with result := e.result.map f }

end Exchange

end PulseSequencer
