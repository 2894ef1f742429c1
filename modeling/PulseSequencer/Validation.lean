import PulseSequencer.Error.Basic

/-!
Checks on single values.

Each check accepts a value or names what is wrong with it.
-/

namespace PulseSequencer
namespace Validation

/-- The widest sequence: one bit of the output field per channel. -/
def maxChannels : Nat := 24

def channelCount (n : Nat) : Except ValidationError Unit :=
  if n = 0 then .error (.field "nchannels" "must be greater than 0")
  else if maxChannels < n then .error (.resourceLimit "nchannels" maxChannels n)
  else .ok ()

def channel (channel nchannels : Nat) : Except ValidationError Unit :=
  if channel < nchannels then .ok () else .error (.channelOutOfRange channel nchannels)

/-- A time is finite. -/
def time (field : String) (value : Binary64) : Except ValidationError Unit :=
  if value.isFinite then .ok () else .error (.nonFiniteTime field value)

/-- The duration of a pulse is finite and positive. -/
def duration (value : Binary64) : Except ValidationError Unit := do
  time "duration" value
  if value ≤ Binary64.zero then .error (.nonPositiveDuration value)

/-- The delay before a pulse is finite and not negative. -/
def delay (value : Binary64) : Except ValidationError Unit := do
  time "delay" value
  if value < Binary64.zero then .error (.negativeDelay value)

/-- A clock period is finite and positive. -/
def clockPeriod (dt : Binary64) : Except ValidationError Unit :=
  if dt.isFinite ∧ Binary64.zero < dt then .ok ()
  else .error (.field "dt"
    ("clock period must be positive and finite, got " ++ Layout.plain.write dt))

/-- The declared duration of a program is finite and not negative. -/
def programDuration (value : Binary64) : Except ValidationError Unit := do
  time "duration" value
  if value < Binary64.zero then
    .error (.field "duration" ("must be non-negative, got " ++ Layout.plain.write value))

end Validation
end PulseSequencer
