import PulseSequencer.Program.Instruction

/-!
Instructions as machine words.

A word holds the operation in its upper eight bits and the payload in the other 24.  An
instruction whose payload is wider has no word.
-/

namespace PulseSequencer

/-- The width of a payload in bits. -/
def payloadBits : Nat := 24

/-- The largest payload. -/
def maxPayload : Nat := 2 ^ payloadBits - 1

/-- An instruction that does not fit into a word. -/
structure WidePayload where
  instruction : Instruction
  deriving DecidableEq

namespace Instruction

/-- The number of the operation. -/
def opcode : Instruction → Nat
  | .jump _ => 0
  | .wait _ => 1
  | .setOutputs _ => 2
  | .triggerWait _ => 3

def payload : Instruction → Word
  | .jump target => target
  | .wait ticks => ticks
  | .setOutputs outputs => outputs
  | .triggerWait outputs => outputs

/-- The word of an instruction. -/
def encode (i : Instruction) : Except WidePayload Word :=
  if i.payload.toNat ≤ maxPayload then .ok (BitVec.ofNat 32 i.opcode <<< payloadBits ||| i.payload)
  else .error ⟨i⟩

/-- The instruction a word stands for. -/
def decode? (w : Word) : Option Instruction :=
  let payload := w &&& BitVec.ofNat 32 maxPayload
  match (w >>> payloadBits).toNat with
  | 0 => some (.jump payload)
  | 1 => some (.wait payload)
  | 2 => some (.setOutputs payload)
  | 3 => some (.triggerWait payload)
  | _ => none

end Instruction

def WidePayload.message (f : WidePayload) : String :=
  "payload " ++ Text.hex f.instruction.payload.toNat ++ " of " ++ f.instruction.report ++
    " does not fit in 24 bits"

end PulseSequencer
