import PulseSequencer.Description.Yaml
import PulseSequencer.Settings.Basic

/-!
Settings as YAML documents.

Sections and fields may be left out; what is missing has its default.
-/

namespace PulseSequencer
namespace Settings

open Yaml (Document Follow Node)
open Spelling (field)

def readCompiler (d : Document) (n : Node) : Follow CompilerSettings := do
  let entries ← d.entries n
  let base : CompilerSettings := {}
  return {
    clockPeriod :=
      ← field entries "clock_period_s" base.clockPeriod (d.spelling.value Node.number?)
    nchannels := ← field entries "nchannels" base.nchannels (d.spelling.value Node.natural?) }

def readTransport (d : Document) (n : Node) : Follow TransportSettings := do
  let entries ← d.entries n
  let base : TransportSettings := {}
  let text := d.spelling.value Node.text?
  return {
    resource := ← field entries "resource" base.resource text
    bitfile := ← field entries "bitfile" base.bitfile (d.spelling.nullable text)
    batchSize := ← field entries "batch_size" base.batchSize (d.spelling.value Node.natural?) }

def readLogging (d : Document) (n : Node) : Follow LoggingSettings := do
  let entries ← d.entries n
  let base : LoggingSettings := {}
  let text := d.spelling.value Node.text?
  return {
    level := ← field entries "level" base.level text
    format := ← field entries "format" base.format text }

def ofDocument? (d : Document) : Option Settings :=
  d.read? do
    let entries ← d.entries d.root
    return {
      compiler := ← field entries "compiler" {} (readCompiler d)
      transport := ← field entries "transport" {} (readTransport d)
      logging := ← field entries "logging" {} (readLogging d) }

/-- Reads a settings document. -/
def parseYaml? (s : String) : Option Settings := do
  match ← Document.parse? s with
  | none => return {}
  | some d => ofDocument? d

/-- The settings as a YAML document. -/
def toYaml (s : Settings) : String :=
  Yaml.Writer.document [
    ("compiler", .object [("clock_period_s", .number s.compiler.clockPeriod),
      ("nchannels", .integer s.compiler.nchannels)]),
    ("transport", .object [("resource", .text s.transport.resource),
      ("bitfile", Description.orNull Json.text s.transport.bitfile),
      ("batch_size", .integer s.transport.batchSize)]),
    ("logging", .object [("level", .text s.logging.level),
      ("format", .text s.logging.format)])]

end Settings
end PulseSequencer
