import PulseSequencer.Device.Basic

/-!
A device that keeps count of the instructions it receives, loses some, and fails on demand.
-/

namespace PulseSequencer

/-- The kind of a call, without its arguments. -/
inductive CallKind where
  | openSession
  | download
  | run
  | count
  | words
  | pending
  | persistent
  | software
  | close
  deriving DecidableEq, Repr

def Call.kind : Call → CallKind
  | .openSession .. => .openSession
  | .download => .download
  | .run => .run
  | .count _ => .count
  | .words _ => .words
  | .pending => .pending
  | .persistent _ => .persistent
  | .software _ => .software
  | .close => .close

/-- The call of a kind that fails, counted from zero, and how. -/
structure Fault where
  kind : CallKind
  nth : Nat
  error : TransportError
  deriving DecidableEq

/-- What a simulated device remembers, across sessions. -/
structure Simulation where
  /-- how many calls of each kind there were -/
  made : List (CallKind × Nat) := []
  expected : Nat := 0
  received : Nat := 0
  deriving DecidableEq

namespace Simulation

/-- How many calls of a kind there were. -/
def timesMade (s : Simulation) (kind : CallKind) : Nat := (s.made.lookup kind).getD 0

/-- Counts one more call. -/
def note (s : Simulation) (kind : CallKind) : Simulation :=
  { s with made := (kind, s.timesMade kind + 1) :: s.made.filter fun entry => entry.1 ≠ kind }

/-- The effect and answer of a call that does not fail, on a device that loses `lost` words. -/
def accept (lost : Nat) (c : Call) (s : Simulation) : Word × Simulation :=
  match c with
  | .count n => (0, { s with expected := n.toNat, received := 0 })
  | .words batch => (0, { s with received := s.received + batch.length })
  | .pending => (BitVec.ofNat 32 (s.expected - (s.received - lost)), s)
  | _ => (0, s)

end Simulation

/-- A device that loses `lost` words of each program and fails the calls that `faults` name; the
first fault that fits counts. -/
def Device.simulated (faults : List Fault) (lost : Nat) : Device Simulation where
  respond c s :=
    match faults.find? fun fault => fault.kind = c.kind ∧ fault.nth = s.timesMade c.kind with
    | some fault => (.error fault.error, s.note c.kind)
    | none =>
      let (answer, s') := (s.note c.kind).accept lost c
      (.ok answer, s')

end PulseSequencer
