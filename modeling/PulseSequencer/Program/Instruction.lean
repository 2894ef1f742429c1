import PulseSequencer.Json.Basic
import PulseSequencer.Text.Radix

/-!
Instructions of the sequencer.

The sequencer holds a word of outputs, one bit per channel.  It waits for a trigger, holds its
outputs for a number of clock ticks, changes them, or jumps.
-/

namespace PulseSequencer

/-- A machine word. -/
abbrev Word := BitVec 32

inductive Instruction where
  /-- drive `outputs` until the trigger comes -/
  | triggerWait (outputs : Word)
  /-- hold the outputs for `ticks + 1` clock ticks -/
  | wait (ticks : Word)
  | setOutputs (outputs : Word)
  | jump (target : Word)
  deriving DecidableEq

namespace Instruction

/-- The clock ticks an instruction takes. -/
def elapsed : Instruction → Nat
  | .wait ticks => ticks.toNat + 1
  | _ => 0

/-- The instruction in a listing. -/
def text : Instruction → String
  | .triggerWait outputs => "trigger-wait " ++ Text.binary24 outputs.toNat
  | .wait ticks => "wait " ++ toString ticks.toNat
  | .setOutputs outputs => "set-outputs " ++ Text.binary24 outputs.toNat
  | .jump target => "jump " ++ toString target.toNat

/-- The instruction with its field named, for a report of a fault. -/
def report : Instruction → String
  | .triggerWait outputs => "TriggerWait \x7b outputs: " ++ toString outputs.toNat ++ " \x7d"
  | .wait ticks => "Wait \x7b ticks: " ++ toString ticks.toNat ++ " \x7d"
  | .setOutputs outputs => "SetOutputs \x7b outputs: " ++ toString outputs.toNat ++ " \x7d"
  | .jump target => "Jump \x7b target: " ++ toString target.toNat ++ " \x7d"

def toJson : Instruction → Json
  | .triggerWait outputs => fields "trigger_wait" "outputs" outputs
  | .wait ticks => fields "wait" "ticks" ticks
  | .setOutputs outputs => fields "set_outputs" "outputs" outputs
  | .jump target => fields "jump" "target" target
where
  fields (op key : String) (value : Word) : Json :=
    .object [("op", .text op), (key, .integer value.toNat)]

end Instruction

end PulseSequencer
