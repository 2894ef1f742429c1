import PulseSequencer.Channel.Curve
import PulseSequencer.Validation

/-!
Sequences of pulses on several channels.

A sequence is a list of channels and a declared interval of time.  Its effective interval is the
declared one stretched to cover every switch.  An `Edit` is one change to a sequence; it is either
accepted, giving a new sequence, or rejected with the reason.
-/

namespace PulseSequencer

/-- Channels numbered from zero, with the declared ends of their interval. -/
structure Sequence where
  channels : List Channel
  declaredStart : Binary64
  declaredStop : Binary64
  deriving DecidableEq

/-- One change to a sequence. -/
inductive Edit where
  /-- declare the interval; without `stop` it is the single time `start` -/
  | interval (start : Binary64) (stop : Option Binary64)
  | setDefault (channel : Nat) (level : Bool)
  | switch (channel : Nat) (t : Binary64)
  /-- a pulse from `t0`, laid over what the channel does -/
  | addPulse (channel : Nat) (t0 duration : Binary64)
  /-- a pulse some time after the last switch of the channel -/
  | appendPulse (channel : Nat) (delay duration : Binary64)
  | setStart (value : Binary64)
  | setStop (value : Binary64)
  deriving DecidableEq

namespace Sequence

/-- Channels with the given default levels and no switches. -/
def withDefaults (defaults : List Bool) : Except ValidationError Sequence := do
  Validation.channelCount defaults.length
  return ⟨defaults.map Channel.resting, Binary64.zero, Binary64.zero⟩

/-- Channels that rest at the low level. -/
def ofCount (n : Nat) : Except ValidationError Sequence := do
  Validation.channelCount n
  return ⟨List.replicate n (Channel.resting false), Binary64.zero, Binary64.zero⟩

def nchannels (s : Sequence) : Nat := s.channels.length

def defaults (s : Sequence) : List Bool := s.channels.map Channel.default

/-- The channel with a given number. -/
def channel (s : Sequence) (i : Nat) : Except ValidationError Channel :=
  match s.channels[i]? with
  | some c => .ok c
  | none => .error (.channelOutOfRange i s.nchannels)

/-- The declared start, or the first switch if that is earlier. -/
def startTime (s : Sequence) : Binary64 :=
  (s.channels.filterMap Channel.firstSwitch?).foldl Binary64.lesser s.declaredStart

/-- The declared stop, or the last switch if that is later. -/
def stopTime (s : Sequence) : Binary64 :=
  (s.channels.filterMap Channel.lastSwitch?).foldl Binary64.greater s.declaredStop

def duration (s : Sequence) : Binary64 := s.stopTime - s.startTime

/-- The first channel, in order of number, with a switch beyond a new bound, and its outermost
switch. -/
def clipped? (s : Sequence) (bound : Bound) (value : Binary64) : Option (Nat × Binary64) :=
  s.channels.zipIdx.findSome? fun (c, i) =>
    match bound with
    | .start => (c.firstSwitch?.filter fun t => decide (t < value)).map (i, ·)
    | .stop => (c.lastSwitch?.filter fun t => decide (value < t)).map (i, ·)

/-- A bound may not leave a switch outside. -/
def checkBound (s : Sequence) (bound : Bound) (value : Binary64) : Except ValidationError Unit :=
  match s.clipped? bound value with
  | some (channel, t) => .error (.boundClipsSwitch bound value channel t)
  | none => .ok ()

/-- Changes the channel with a given number. -/
def modifyChannel (s : Sequence) (i : Nat) (f : Channel → Channel) :
    Except ValidationError Sequence := do
  Validation.channel i s.nchannels
  return { s with channels := s.channels.modify i f }

/-- Declares the interval from `start` to `stop`. -/
def withInterval (s : Sequence) (start : Binary64) (stop? : Option Binary64) :
    Except ValidationError Sequence := do
  Validation.time "start_time" start
  let stop := stop?.getD start
  Validation.time "stop_time" stop
  if stop < start then throw (.boundOrder start stop)
  s.checkBound .start start
  s.checkBound .stop stop
  return { s with declaredStart := start, declaredStop := stop }

def setDefault (s : Sequence) (i : Nat) (level : Bool) : Except ValidationError Sequence :=
  s.modifyChannel i (·.withDefault level)

/-- Changes the level of a channel from `t` on. -/
def addSwitch (s : Sequence) (i : Nat) (t : Binary64) : Except ValidationError Sequence := do
  Validation.time "t" t
  s.modifyChannel i (·.addSwitch t)

/-- Lays a pulse over a channel: its level is inverted from `t0` to `t0 + duration`. -/
def addPulse (s : Sequence) (i : Nat) (t0 duration : Binary64) :
    Except ValidationError Sequence := do
  Validation.time "t0" t0
  Validation.duration duration
  let t1 := t0 + duration
  Validation.time "t0 + duration" t1
  s.modifyChannel i fun c => (c.addSwitch t0).addSwitch t1

/-- Where an appended pulse counts its delay from: the last switch of the channel, or the start of
the sequence. -/
def anchor (s : Sequence) (c : Channel) : Binary64 := c.lastSwitch?.getD s.startTime

/-- Puts a pulse `delay` after the last switch of a channel. -/
def appendPulse (s : Sequence) (i : Nat) (delay duration : Binary64) :
    Except ValidationError Sequence := do
  Validation.delay delay
  Validation.duration duration
  let c ← s.channel i
  let t0 := s.anchor c + delay
  let t1 := t0 + duration
  Validation.time "t0 + duration" t1
  s.modifyChannel i fun c => (c.addSwitch t0).addSwitch t1

def setStart (s : Sequence) (value : Binary64) : Except ValidationError Sequence := do
  Validation.time "start_time" value
  s.checkBound .start value
  if s.stopTime < value then throw (.boundOrder value s.stopTime)
  return { s with declaredStart := value }

def setStop (s : Sequence) (value : Binary64) : Except ValidationError Sequence := do
  Validation.time "stop_time" value
  s.checkBound .stop value
  if value < s.startTime then throw (.boundOrder s.startTime value)
  return { s with declaredStop := value }

/-- The sequence after an edit, or why the edit is rejected. -/
def edit (s : Sequence) : Edit → Except ValidationError Sequence
  | .interval start stop => s.withInterval start stop
  | .setDefault i level => s.setDefault i level
  | .switch i t => s.addSwitch i t
  | .addPulse i t0 duration => s.addPulse i t0 duration
  | .appendPulse i delay duration => s.appendPulse i delay duration
  | .setStart value => s.setStart value
  | .setStop value => s.setStop value

/-- The sequence after an edit; a rejected edit leaves it as it was. -/
def attempt (s : Sequence) (e : Edit) : Sequence :=
  match s.edit e with
  | .ok s' => s'
  | .error _ => s

/-- The curves of all channels over the effective interval. -/
def curves (s : Sequence) : List Curve :=
  s.channels.map (·.curveBetween s.startTime s.stopTime)

/-- Same effective interval and the same channels, by value. -/
def equal (a b : Sequence) : Bool :=
  a.startTime.equal b.startTime && a.stopTime.equal b.stopTime &&
    a.channels.length == b.channels.length &&
    (a.channels.zip b.channels).all fun (c, d) => c.equal d

end Sequence

end PulseSequencer
