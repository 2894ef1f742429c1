import PulseSequencer.Decimal.Layout

/-!
What can go wrong, and how it is worded.

Each kind of error is a cause with the values that explain it; `message` puts it into words.
-/

namespace PulseSequencer

/-- An end of the time interval of a sequence. -/
inductive Bound where
  | start
  | stop
  deriving DecidableEq, Repr

def Bound.message : Bound → String
  | .start => "start time"
  | .stop => "stop time"

/-- A value that a sequence, a compiler or a generator does not accept. -/
inductive ValidationError where
  /-- a named setting has an unacceptable value -/
  | field (name text : String)
  | nonPositiveDuration (value : Binary64)
  | negativeDelay (value : Binary64)
  | nonFiniteTime (field : String) (value : Binary64)
  | channelOutOfRange (channel nchannels : Nat)
  /-- moving a bound would leave a transition outside the interval -/
  | boundClipsSwitch (bound : Bound) (value : Binary64) (channel : Nat) (switchTime : Binary64)
  | boundOrder (start stop : Binary64)
  | resourceLimit (resource : String) (limit requested : Nat)
  deriving DecidableEq

def ValidationError.message : ValidationError → String
  | .field name text => s!"Field '{name}': {text}"
  | .nonPositiveDuration value =>
    "Pulse duration must be greater than zero, got " ++ Layout.plain.write value
  | .negativeDelay value =>
    "Pulse delay must be greater or equal to zero, got " ++ Layout.plain.write value
  | .nonFiniteTime name value =>
    s!"Field '{name}' must be a finite time, got " ++ Layout.plain.write value
  | .channelOutOfRange channel nchannels =>
    s!"Channel {channel} out of range for a sequence with {nchannels} channels"
  | .boundClipsSwitch bound value channel switchTime =>
    "The " ++ bound.message ++ " " ++ Layout.plain.write value ++
      s!" would exclude the transition in channel {channel} (t=" ++
      Layout.plain.write switchTime ++ ")"
  | .boundOrder start stop =>
    "The start time " ++ Layout.plain.write start ++
      " cannot be greater than the stop time " ++ Layout.plain.write stop
  | .resourceLimit resource limit requested =>
    s!"Resource limit exceeded for {resource}: limit={limit}, requested={requested}"

/-- A failed exchange with the sequencer hardware. -/
inductive TransportError where
  | openFailed (text : String)
  | writeFailed (text : String)
  | readFailed (text : String)
  | closed
  deriving DecidableEq, Repr

def TransportError.message : TransportError → String
  | .openFailed text => "Failed to open session: " ++ text
  | .writeFailed text => "Write failed: " ++ text
  | .readFailed text => "Read failed: " ++ text
  | .closed => "Session is closed"

/-- A file that could not be read. -/
inductive FileError where
  | notFound
  | isDirectory
  /-- the path goes on beyond a file -/
  | notDirectory
  /-- the bytes are not a text -/
  | notText
  | other (text : String)
  deriving DecidableEq, Repr

def FileError.message : FileError → String
  | .notFound => "No such file or directory (os error 2)"
  | .isDirectory => "Is a directory (os error 21)"
  | .notDirectory => "Not a directory (os error 20)"
  | .notText => "stream did not contain valid UTF-8"
  | .other text => text

/-- Any failure that a user of the library meets. -/
inductive Error where
  | config (text : String)
  | validation (cause : ValidationError)
  | transport (cause : TransportError)
  | file (cause : FileError)
  /-- a document that is not well formed or does not have the expected fields -/
  | serialization (text : String)
  deriving DecidableEq

namespace Error

def message : Error → String
  | .config text => "Configuration error: " ++ text
  | .validation cause => "Validation error: " ++ cause.message
  | .transport cause => "Transport error: " ++ cause.message
  | .file cause => "IO error: " ++ cause.message
  | .serialization text => "Serialization error: " ++ text

/-- The wording of the underlying cause, for those failures that wrap another one. -/
def source : Error → Option String
  | .validation cause => some cause.message
  | .transport cause => some cause.message
  | .file cause => some cause.message
  | .config _ | .serialization _ => none

/-- The failure of a document that cannot be read. -/
def malformed : Error := .serialization "malformed document"

end Error

end PulseSequencer
