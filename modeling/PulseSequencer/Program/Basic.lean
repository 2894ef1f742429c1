import PulseSequencer.Program.Encoding

/-!
Programs for the sequencer.

A program is a list of instructions that runs in a loop, its period in clock ticks, and warnings
about how it was made.
-/

namespace PulseSequencer

/-- What the compiler points out about a program. -/
inductive Warning where
  /-- switches lie beyond the declared duration -/
  | durationExceeded (declaredTicks actualTicks : Nat)
  deriving DecidableEq, Repr

namespace Warning

def message : Warning → String
  | .durationExceeded declared actual =>
    s!"Duration exceeded: declared {declared} ticks, events run to {actual} ticks"

def toJson : Warning → Json
  | .durationExceeded declared actual =>
    .object [("kind", .text "duration_exceeded"), ("declared_ticks", .integer declared),
      ("actual_ticks", .integer actual)]

end Warning

structure Program where
  instructions : List Instruction
  periodTicks : Nat
  warnings : List Warning
  deriving DecidableEq

namespace Program

/-- The words of a program, in order. -/
def encode (p : Program) : Except WidePayload (List Word) := p.instructions.mapM Instruction.encode

def toJson (p : Program) : Json :=
  .object [("instructions", .list (p.instructions.map Instruction.toJson)),
    ("period_ticks", .integer p.periodTicks), ("warnings", .list (p.warnings.map Warning.toJson))]

end Program

/-- The longest wait of one instruction. -/
def maxWaitTicks : Nat := maxPayload

/-- Waits that last exactly `ticks` clock ticks: full ones, then one for the rest. -/
def splitWait (ticks : Nat) : List Instruction :=
  if ticks = 0 then []
  else
    List.replicate ((ticks - 1) / (maxWaitTicks + 1)) (.wait (BitVec.ofNat 32 maxWaitTicks)) ++
      [.wait (BitVec.ofNat 32 ((ticks - 1) % (maxWaitTicks + 1)))]

end PulseSequencer
