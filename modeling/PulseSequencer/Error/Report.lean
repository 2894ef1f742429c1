import PulseSequencer.Error.Basic
import PulseSequencer.Text.Quoted

/-!
Failures in full, with the names of their fields, as the command line reports them.
-/

namespace PulseSequencer

/-- A name with the fields of a record. -/
def recordReport (name : String) (fields : List (String × String)) : String :=
  name ++ " \x7b " ++ ", ".intercalate (fields.map fun (key, v) => key ++ ": " ++ v) ++ " \x7d"

def Bound.report : Bound → String
  | .start => "Start"
  | .stop => "Stop"

def ValidationError.report : ValidationError → String
  | .field name text =>
    recordReport "Field" [("field", Text.quoted name), ("message", Text.quoted text)]
  | .nonPositiveDuration value => "NonPositiveDuration(" ++ Layout.report.write value ++ ")"
  | .negativeDelay value => "NegativeDelay(" ++ Layout.report.write value ++ ")"
  | .nonFiniteTime name value =>
    recordReport "NonFiniteTime"
      [("field", Text.quoted name), ("value", Layout.report.write value)]
  | .channelOutOfRange channel nchannels =>
    recordReport "ChannelOutOfRange"
      [("channel", toString channel), ("nchannels", toString nchannels)]
  | .boundClipsSwitch bound value channel switchTime =>
    recordReport "BoundClipsSwitch"
      [("bound", bound.report), ("value", Layout.report.write value),
        ("channel", toString channel), ("switch_time", Layout.report.write switchTime)]
  | .boundOrder start stop =>
    recordReport "BoundOrder"
      [("start", Layout.report.write start), ("stop", Layout.report.write stop)]
  | .resourceLimit resource limit requested =>
    recordReport "ResourceLimit"
      [("resource", Text.quoted resource), ("limit", toString limit),
        ("requested", toString requested)]

def TransportError.report : TransportError → String
  | .openFailed text => "Open(" ++ Text.quoted text ++ ")"
  | .writeFailed text => "Write(" ++ Text.quoted text ++ ")"
  | .readFailed text => "Read(" ++ Text.quoted text ++ ")"
  | .closed => "Closed"

def FileError.report : FileError → String
  | .notFound =>
    recordReport "Os" [("code", "2"), ("kind", "NotFound"),
      ("message", Text.quoted "No such file or directory")]
  | .isDirectory =>
    recordReport "Os" [("code", "21"), ("kind", "IsADirectory"),
      ("message", Text.quoted "Is a directory")]
  | .notDirectory =>
    recordReport "Os" [("code", "20"), ("kind", "NotADirectory"),
      ("message", Text.quoted "Not a directory")]
  | .notText =>
    recordReport "Error" [("kind", "InvalidData"),
      ("message", Text.quoted "stream did not contain valid UTF-8")]
  | .other text => recordReport "Custom" [("kind", "Other"), ("error", Text.quoted text)]

def Error.report : Error → String
  | .config text => "Config(" ++ Text.quoted text ++ ")"
  | .validation cause => "Validation(" ++ cause.report ++ ")"
  | .transport cause => "Transport(" ++ cause.report ++ ")"
  | .file cause => "Io(" ++ cause.report ++ ")"
  | .serialization text => "Serialization(" ++ Text.quoted text ++ ")"

end PulseSequencer
