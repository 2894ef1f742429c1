import PulseSequencer.Json.Basic
import PulseSequencer.Decimal.Layout
import PulseSequencer.Text.Radix
import PulseSequencer.Yaml.Meaning

/-!
Writing values as YAML.

Mappings and lists are written as blocks.  A text is written plainly where that reads back as the
same text, else between single quotes; between double quotes if it holds characters that have to be
escaped; and as a literal block if it holds line feeds.
-/

namespace PulseSequencer
namespace Yaml
namespace Writer

/-- A character that may be written as it is. -/
def isPrintable (c : Char) : Bool :=
  let n := c.toNat
  n = 0x0A || (0x20 ≤ n && n ≤ 0x7E) || (0xA0 ≤ n && n ≤ 0xD7FF) ||
    (0xE000 ≤ n && n ≤ 0xFFFD && n ≠ 0xFEFF) || 0x10000 ≤ n

/-- A character that has a meaning of its own at the start of a scalar. -/
def isIndicator (c : Char) : Bool := "#,[]\x7b\x7d&*!|>'\"%@`".toList.contains c

def isGap (c : Option Char) : Bool := c.all fun ch => isBlank ch || isBreak ch

/-- A colon before a gap, or a comment sign after one, from a character on that is not the
first. -/
def hasMark : (previous : Char) → List Char → Bool
  | _, [] => false
  | previous, c :: rest =>
    (c = ':' && isGap rest.head?) || (c = '#' && isGap (some previous)) || hasMark c rest

/-- A text that would read as something else than one plain scalar. -/
def needsQuotes : List Char → Bool
  | [] => false
  | cs@(c :: rest) =>
    cs.take 3 = ['-', '-', '-'] || cs.take 3 = ['.', '.', '.'] || isIndicator c ||
      ((c = '?' || c = ':' || c = '-') && isGap rest.head?) || hasMark c rest

/-- Two neighbours of the given classes. -/
def hasPair (p q : Char → Bool) : List Char → Bool
  | a :: b :: rest => (p a && q b) || hasPair p q (b :: rest)
  | _ => false

/-- The written form of a text. -/
def styleOf (s : String) : Style :=
  let cs := s.toList
  let special := cs.any fun c => !isPrintable c
  let spaceBeforeBreak := hasPair (· = ' ') isBreak cs
  let breakBeforeSpace := hasPair isBreak (· = ' ') cs
  let endsInSpace := cs.getLast?.any (· = ' ')
  if cs.contains '\n' then
    if special || spaceBeforeBreak || endsInSpace then .doubleQuoted else .literal
  else if special || spaceBeforeBreak || breakBeforeSpace then .doubleQuoted
  else
    let isText := match Datum.ofPlain? s with
      | some (.text _) => !Meaning.isZeroPadded cs
      | _ => false
    let padded := cs.head?.any (· = ' ') || endsInSpace
    if isText && !padded && !cs.any isBreak && !needsQuotes cs then .plain else .singleQuoted

/-- A character between double quotes. -/
def escape (c : Char) : String :=
  let upper (width n : Nat) : String :=
    String.ofList ((Text.padded 16 width n).toList.map Char.toUpper)
  if isPrintable c ∧ ¬isBreak c ∧ c ≠ '"' ∧ c ≠ '\\' then c.toString
  else
    match c.toNat with
    | 0x00 => "\\0"
    | 0x07 => "\\a"
    | 0x08 => "\\b"
    | 0x09 => "\\t"
    | 0x0A => "\\n"
    | 0x0B => "\\v"
    | 0x0C => "\\f"
    | 0x0D => "\\r"
    | 0x1B => "\\e"
    | 0x22 => "\\\""
    | 0x5C => "\\\\"
    | 0x85 => "\\N"
    | 0x2028 => "\\L"
    | 0x2029 => "\\P"
    | n =>
      if n ≤ 0xFF then "\\x" ++ upper 2 n
      else if n ≤ 0xFFFF then "\\u" ++ upper 4 n
      else "\\U" ++ upper 8 n

/-- Characters with the margin before the first one of each line. -/
def withMargin (margin : String) (each : Char → String) : (fresh : Bool) → List Char → String
  | _, [] => ""
  | fresh, c :: rest =>
    if isBreak c then c.toString ++ withMargin margin each true rest
    else (if fresh then margin else "") ++ each c ++ withMargin margin each false rest

/-- The heading of a literal block: an indentation digit if its first line would hide it, and how
its end is treated. -/
def literalHeading (cs : List Char) : String :=
  let digit := if cs.head?.any fun c => c = ' ' || isBreak c then "2" else ""
  let ending := match cs.reverse with
    | last :: before =>
      if !isBreak last then "-" else if before.head?.all isBreak then "+" else ""
    | [] => "-"
  "|" ++ digit ++ ending

/-- A text as the value of a key; `margin` is the indentation of further lines.  The line is not
ended, unless the text ends its last line itself. -/
def text (margin s : String) : String :=
  let cs := s.toList
  match styleOf s with
  | .plain => s
  | .singleQuoted =>
    let each (c : Char) : String := if c = '\'' then "''" else c.toString
    let tail := if cs.getLast?.any isBreak then margin else ""
    "'" ++ withMargin margin each false cs ++ tail ++ "'"
  | .doubleQuoted => "\"" ++ String.join (cs.map escape) ++ "\""
  | _ => literalHeading cs ++ "\n" ++ withMargin margin Char.toString true cs

/-- Ends a line unless it has just been ended. -/
def endLine (s : String) : String := if s.toList.getLast?.any isBreak then s else s ++ "\n"

/-- A value on the line of its key or dash. -/
def scalar (margin : String) : Json → String
  | .bool true => "true"
  | .bool false => "false"
  | .integer n => toString n
  | .number x => Layout.document.write x
  | .text s => text margin s
  | .list _ => "[]"
  | .object _ => "\x7b\x7d"
  | _ => "null"

mutual

/-- The entries of a mapping, each with its line breaks; `margin` is the indentation of the
mapping. -/
def entries (margin : String) : List (String × Json) → List String
  | [] => []
  | (key, v) :: rest => (key ++ ":" ++ afterKey margin v) :: entries margin rest

/-- What follows a key and its colon. -/
def afterKey (margin : String) : Json → String
  | .list (v :: rest) => "\n" ++ margin ++ margin.intercalate (items margin (v :: rest))
  | .object (e :: rest) =>
    let inner := margin ++ "  "
    "\n" ++ inner ++ inner.intercalate (entries inner (e :: rest))
  | v => endLine (" " ++ scalar (margin ++ "  ") v)

/-- The items of a list, each with its line breaks. -/
def items (margin : String) : List Json → List String
  | [] => []
  | v :: rest => ("- " ++ afterDash margin v) :: items margin rest

/-- What follows a dash and its blank. -/
def afterDash (margin : String) : Json → String
  | .object (e :: rest) =>
    let inner := margin ++ "  "
    inner.intercalate (entries inner (e :: rest))
  | v => endLine (scalar (margin ++ "  ") v)

end

/-- A mapping as a document. -/
def document (fields : List (String × Json)) : String := String.join (entries "" fields)

end Writer
end Yaml
end PulseSequencer
