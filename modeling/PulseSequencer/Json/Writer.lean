import PulseSequencer.Decimal.Layout
import PulseSequencer.Json.Basic
import PulseSequencer.Text.Radix

/-!
Writing JSON values, on one line or indented by two blanks per level.
-/

namespace PulseSequencer
namespace Json

/-- A character inside a quoted text. -/
def escape (c : Char) : String :=
  if c = '"' then "\\\""
  else if c = '\\' then "\\\\"
  else if c = '\n' then "\\n"
  else if c = '\r' then "\\r"
  else if c = '\t' then "\\t"
  else if c = '\x08' then "\\b"
  else if c = '\x0c' then "\\f"
  else if c.toNat < 0x20 then "\\u" ++ Text.padded 16 4 c.toNat
  else c.toString

def quote (s : String) : String := "\"" ++ String.join (s.toList.map escape) ++ "\""

/-- A value that is neither a list nor an object; a number that is not finite has no written form
and becomes `null`. -/
def scalar : Json → String
  | .bool true => "true"
  | .bool false => "false"
  | .integer n => toString n
  | .number x => if x.isFinite then Layout.json.write x else "null"
  | .text s => quote s
  | _ => "null"

mutual

/-- The value on one line without blanks. -/
def compact : Json → String
  | .list items => "[" ++ ",".intercalate (compactItems items) ++ "]"
  | .object fields => "\x7b" ++ ",".intercalate (compactFields fields) ++ "\x7d"
  | v => v.scalar

def compactItems : List Json → List String
  | [] => []
  | v :: rest => compact v :: compactItems rest

def compactFields : List (String × Json) → List String
  | [] => []
  | (key, v) :: rest => (quote key ++ ":" ++ compact v) :: compactFields rest

end

mutual

/-- The value over several lines; `margin` is the line break with the indentation of the line that
the value starts on. -/
def pretty (margin : String) : Json → String
  | .list [] => "[]"
  | .list items =>
    let inner := margin ++ "  "
    "[" ++ inner ++ ("," ++ inner).intercalate (prettyItems inner items) ++ margin ++ "]"
  | .object [] => "\x7b\x7d"
  | .object fields =>
    let inner := margin ++ "  "
    "\x7b" ++ inner ++ ("," ++ inner).intercalate (prettyFields inner fields) ++ margin ++ "\x7d"
  | v => v.scalar

def prettyItems (margin : String) : List Json → List String
  | [] => []
  | v :: rest => pretty margin v :: prettyItems margin rest

def prettyFields (margin : String) : List (String × Json) → List String
  | [] => []
  | (key, v) :: rest => (quote key ++ ": " ++ pretty margin v) :: prettyFields margin rest

end

/-- The indented form of a whole document. -/
def indented (v : Json) : String := pretty "\n" v

end Json
end PulseSequencer
