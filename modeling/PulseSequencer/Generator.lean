import PulseSequencer.Device.Session
import PulseSequencer.Program.Basic
import PulseSequencer.Settings.Basic

/-!
Pulse generators: programs on their way to the hardware.

Each operation of a generator is a session of its own on its device.
-/

namespace PulseSequencer

/-- A sequencer at a resource, and how many words it is sent at once. -/
structure Generator where
  resource : String
  bitfile : Option String
  batchSize : Nat
  batchSize_pos : 0 < batchSize
  deriving DecidableEq

/-- What came of sending a program: the words and batches sent, and how many instructions the
device still expects. -/
structure Upload where
  words : Nat
  batches : Nat
  pending : Word
  deriving DecidableEq, Repr

/-- A list in pieces of `size`, the last of which may be shorter. -/
def batches {α : Type} (size : Nat) (h : 0 < size) : List α → List (List α)
  | [] => []
  | x :: rest => (x :: rest).take size :: batches size h ((x :: rest).drop size)
termination_by xs => xs.length
decreasing_by simp only [List.length_drop, List.length_cons]; omega

namespace Generator

def ofResource (resource : String) : Generator :=
  ⟨resource, none, defaultBatchSize, by decide⟩

def withBitfile (g : Generator) (bitfile : String) : Generator :=
  { g with bitfile := some bitfile }

def withBatchSize (g : Generator) (size : Nat) : Except ValidationError Generator :=
  if h : 0 < size then .ok { g with batchSize := size, batchSize_pos := h }
  else .error (.field "batch_size" "must be at least 1")

/-- The generator that the settings describe. -/
def ofSettings (t : TransportSettings) : Except ValidationError Generator := do
  let g ← (ofResource t.resource).withBatchSize t.batchSize
  return { g with bitfile := t.bitfile }

variable {σ : Type}

/-- A session with the generator's device. -/
def session (g : Generator) (d : Device σ) (calls : List Call) (s : σ) :
    Exchange σ (List Word) :=
  d.session g.resource g.bitfile calls s

/-- Loads the bitfile and starts it. -/
def start (g : Generator) (d : Device σ) (s : σ) : Exchange σ Unit :=
  (g.session d [.download, .run] s).map fun _ => ()

/-- The calls that hand over words: their number, the words in batches, and a question whether the
device expects more. -/
def uploadCalls (g : Generator) (words : List Word) : List Call :=
  .count (BitVec.ofNat 32 words.length) ::
    ((batches g.batchSize g.batchSize_pos words).map Call.words ++ [.pending])

/-- Sends words to the device, unless there are more of them than its counter holds.  A device that
expects more words afterwards is no error. -/
def upload (g : Generator) (d : Device σ) (words : List Word) (s : σ) : Exchange σ Upload :=
  if 2 ^ 32 ≤ words.length then
    ⟨.error (.writeFailed s!"{words.length} instructions exceed the counter"), [], s⟩
  else
    (g.session d (g.uploadCalls words) s).map fun answers =>
      { words := words.length
        batches := (batches g.batchSize g.batchSize_pos words).length
        pending := answers.getLastD 0 }

/-- Encodes a program and sends it. -/
def program (g : Generator) (d : Device σ) (p : Program) (s : σ) :
    Except WidePayload (Exchange σ Upload) :=
  p.encode.map fun words => g.upload d words s

/-- Restarts the program after each loop. -/
def runContinuous (g : Generator) (d : Device σ) (s : σ) : Exchange σ Unit :=
  (g.session d [.persistent true] s).map fun _ => ()

/-- Runs the program once: no restarts, then a rising edge on the software trigger. -/
def runSingle (g : Generator) (d : Device σ) (s : σ) : Exchange σ Unit :=
  (g.session d [.persistent false, .software false, .software true] s).map fun _ => ()

/-- Stops after the current loop. -/
def stop (g : Generator) (d : Device σ) (s : σ) : Exchange σ Unit :=
  (g.session d [.persistent false] s).map fun _ => ()

end Generator

end PulseSequencer
