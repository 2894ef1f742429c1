import PulseSequencer.Text.Printable
import PulseSequencer.Text.Radix

/-!
Texts between double quotes, with everything that does not show escaped.
-/

namespace PulseSequencer
namespace Text

/-- A character inside quotes. -/
def escaped (c : Char) : String :=
  match c with
  | '\x00' => "\\0"
  | '\t' => "\\t"
  | '\n' => "\\n"
  | '\r' => "\\r"
  | '"' => "\\\""
  | '\\' => "\\\\"
  | c => if isPrintable c then c.toString else "\\u\x7b" ++ padded 16 1 c.toNat ++ "\x7d"

def quoted (s : String) : String := "\"" ++ String.join (s.toList.map escaped) ++ "\""

end Text
end PulseSequencer
