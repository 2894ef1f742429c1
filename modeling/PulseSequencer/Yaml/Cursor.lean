/-!
Positions in a YAML text and the classes of characters that matter there.
-/

namespace PulseSequencer
namespace Yaml

/-- A character that ends a line. -/
def isBreak (c : Char) : Bool :=
  c = '\n' || c = '\r' || c = '\u0085' || c = '\u2028' || c = '\u2029'

/-- A blank within a line. -/
def isBlank (c : Char) : Bool := c = ' ' || c = '\t'

/-- A character of a name. -/
def isNameChar (c : Char) : Bool := c.isAlphanum || c = '_' || c = '-'

/-- A character that may stand in a document at all. -/
def isPermitted (c : Char) : Bool :=
  let n := c.toNat
  n = 0x09 || n = 0x0A || n = 0x0D || n = 0x85 || (0x20 ≤ n && n ≤ 0x7E) ||
    (0xA0 ≤ n && n ≤ 0xD7FF) || (0xE000 ≤ n && n ≤ 0xFFFD) || 0x10000 ≤ n

/-- The text still to be read, and how far the reading has come. -/
structure Cursor where
  rest : List Char
  /-- the number of bytes before the rest -/
  index : Nat := 0
  line : Nat := 0
  column : Nat := 0

namespace Cursor

def peek (c : Cursor) : Option Char := c.rest.head?

def peekAt (c : Cursor) (n : Nat) : Option Char := c.rest[n]?

/-- The `n`th character ahead is a blank, a line break or beyond the end. -/
def gapAt (c : Cursor) (n : Nat) : Bool :=
  match c.peekAt n with
  | none => true
  | some ch => isBlank ch || isBreak ch

/-- The rest of the line is used up. -/
def atLineEnd (c : Cursor) : Bool := c.peek.all isBreak

/-- The number of bytes of a text. -/
def byteSize (cs : List Char) : Nat := cs.foldl (fun n c => n + c.utf8Size) 0

/-- Passes `n` characters of the line. -/
def skip (c : Cursor) (n : Nat) : Cursor :=
  { c with
    rest := c.rest.drop n
    index := c.index + byteSize (c.rest.take n)
    column := c.column + n }

/-- Passes the characters of the line as long as they are in a class. -/
def skipWhile (c : Cursor) (p : Char → Bool) : Cursor := c.skip (c.rest.takeWhile p).length

/-- Passes a line break; it counts as a line feed unless it is a separator of its own kind. -/
def takeBreak (c : Cursor) : Char × Cursor :=
  match c.rest with
  | '\r' :: '\n' :: rest => ('\n', ⟨rest, c.index + 2, c.line + 1, 0⟩)
  | ch :: rest =>
    (if ch = '\u2028' ∨ ch = '\u2029' then ch else '\n',
      ⟨rest, c.index + ch.utf8Size, c.line + 1, 0⟩)
  | [] => ('\n', c)

/-- A document marker, three equal characters alone at the start of a line. -/
def atMarker (c : Cursor) (mark : Char) : Bool :=
  c.column = 0 && c.rest.take 3 = [mark, mark, mark] && c.gapAt 3

def atDocumentMarker (c : Cursor) : Bool := c.atMarker '-' || c.atMarker '.'

/-- Passes blanks, then a comment, up to the end of the line; fails if anything else is there. -/
def skipToLineEnd? (c : Cursor) : Option Cursor :=
  let c := c.skipWhile isBlank
  let c := if c.peek = some '#' then c.skipWhile (fun ch => !isBreak ch) else c
  if c.atLineEnd then some c else none

end Cursor

end Yaml
end PulseSequencer
