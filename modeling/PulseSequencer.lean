import PulseSequencer.Device.Simulated
import PulseSequencer.Generator
import PulseSequencer.Main
import PulseSequencer.Proofs.Canonical
import PulseSequencer.Proofs.ProgramLimit
import PulseSequencer.Proofs.Encoding
import PulseSequencer.Proofs.Sequence.Invariant
import PulseSequencer.Proofs.Description
import PulseSequencer.Proofs.Session
import PulseSequencer.Proofs.Upload
import PulseSequencer.Proofs.Operations
import PulseSequencer.Proofs.Wire
import PulseSequencer.Proofs.Checked
import PulseSequencer.Proofs.Sequence.Equality
import PulseSequencer.Proofs.Channel.ToggleSet
import PulseSequencer.Proofs.Sequence.Overlay
import PulseSequencer.Proofs.EntryOrder
import PulseSequencer.Proofs.JsonFile
import PulseSequencer.Proofs.DefaultLevel
import PulseSequencer.Proofs.Sequence.Append
import PulseSequencer.Proofs.Channel.Curve
import PulseSequencer.Proofs.Channel.Levels
import PulseSequencer.Proofs.Accuracy
import PulseSequencer.Proofs.ProgramSize
import PulseSequencer.Proofs.WaitChain
import PulseSequencer.Proofs.Json.Number
import PulseSequencer.Proofs.Json.Library
