import PulseSequencer.Sequence

/-!
Descriptions of sequences.

A description lists what a sequence file says: the channels, the interval and the pulses in order.
Building it applies the pulses to an empty sequence one after the other.
-/

namespace PulseSequencer

/-- An entry in the list of pulses. -/
inductive Pulse where
  | add (channel : Nat) (t0 duration : Binary64)
  | append (channel : Nat) (delay duration : Binary64)
  | switch (channel : Nat) (t : Binary64)
  deriving DecidableEq

/-- The edit that an entry asks for. -/
def Pulse.toEdit : Pulse → Edit
  | .add channel t0 duration => .addPulse channel t0 duration
  | .append channel delay duration => .appendPulse channel delay duration
  | .switch channel t => .switch channel t

/-- The contents of a sequence file. -/
structure Description where
  nchannels : Option Nat := none
  defaults : Option (List Bool) := none
  startTime : Binary64 := Binary64.zero
  stopTime : Option Binary64 := none
  pulses : List Pulse := []
  deriving DecidableEq

namespace Description

/-- The number of channels if neither the file nor the settings say one. -/
def defaultNchannels : Nat := 8

/-- The channels of a description, before any pulse. -/
def channels (d : Description) (nchannels : Nat) : Except ValidationError Sequence :=
  match d.defaults, d.nchannels with
  | some defaults, some n =>
    if defaults.length = n then Sequence.withDefaults defaults
    else .error (.field "defaults" s!"length {defaults.length} does not match nchannels {n}")
  | some defaults, none => Sequence.withDefaults defaults
  | none, n? => Sequence.ofCount (n?.getD nchannels)

/-- The sequence that a description stands for; `nchannels` counts where the description does
not say how many channels there are. -/
def build (d : Description) (nchannels : Nat) : Except ValidationError Sequence := do
  let empty ← d.channels nchannels
  let started ← empty.withInterval d.startTime none
  let played ← d.pulses.foldlM (fun s p => s.edit p.toEdit) started
  match d.stopTime with
  | some stop => played.setStop stop
  | none => return played

end Description

end PulseSequencer
