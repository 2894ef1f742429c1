import PulseSequencer.Json.Reader
import PulseSequencer.Json.Writer

/-!
JSON libraries.
-/

namespace PulseSequencer
namespace Json

/-- A library that writes values as documents and reads documents. -/
structure Library where
  write : Json → String
  read? : String → Option Json

/-- Documents on one line, and numbers read in 64-bit arithmetic. -/
def Library.standard : Library where
  write := compact
  read? := parse?

end Json
end PulseSequencer
