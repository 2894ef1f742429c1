import PulseSequencer.Yaml.Cursor
import PulseSequencer.Yaml.Token

/-!
Scalars in a YAML text: plain, quoted and block scalars, and the names after `&`, `*` and `!`.

A scalar may run over several lines.  In plain and quoted scalars the break between two lines of
text counts as a space, and each empty line between them as a line feed.
-/

namespace PulseSequencer
namespace Yaml
namespace Scalar

/-- Blanks and line breaks between two pieces of a scalar.  Blanks are dropped once a line has
ended.  What has been read is kept last first. -/
structure Gap where
  blanks : List Char := []
  breaks : List Char := []
  /-- the line has ended -/
  broken : Bool := false

/-- Reads blanks and line breaks.  A tab may not stand in the indentation, that is before column
`indent` of a further line. -/
def readGap? (indent : Nat) : (fuel : Nat) → Gap → Cursor → Option (Gap × Cursor)
  | 0, _, _ => none
  | fuel + 1, g, c =>
    match c.peek with
    | none => some (g, c)
    | some ch =>
      if isBlank ch then
        if g.broken then
          if ch = '\t' ∧ c.column < indent then none else readGap? indent fuel g (c.skip 1)
        else readGap? indent fuel { g with blanks := ch :: g.blanks } (c.skip 1)
      else if isBreak ch then
        let (br, c) := c.takeBreak
        readGap? indent fuel ⟨[], br :: g.breaks, true⟩ c
      else some (g, c)

/-- What a gap stands for between two pieces of text. -/
def Gap.text (g : Gap) : List Char :=
  if g.broken then
    match g.breaks.reverse with
    | ['\n'] => [' ']
    | '\n' :: others => others
    | others => others
  else g.blanks.reverse

/-! ## Plain scalars -/

def isFlowIndicator (c : Char) : Bool :=
  c = ',' || c = '[' || c = ']' || c = '\x7b' || c = '\x7d'

/-- The piece of a plain scalar up to the next gap or indicator.  Inside of flow collections a
colon directly before an indicator is an error. -/
def plainPiece? (flow : Bool) : List Char → Option (List Char)
  | [] => some []
  | c :: rest =>
    let colon := c = ':'
    let next := rest.head?
    if isBlank c || isBreak c then some []
    else if flow && colon && next.any (fun n => isFlowIndicator n || n = '?') then none
    else if colon && next.all (fun n => isBlank n || isBreak n) then some []
    else if flow && isFlowIndicator c then some []
    else (plainPiece? flow rest).map (c :: ·)

/-- A plain scalar from the cursor on, after the text `read` (last first) and the gap `g`.  The
result tells whether the scalar was followed by a line break. -/
def readPlain? (flow : Bool) (indent : Nat) :
    (fuel : Nat) → (read : List Char) → Gap → Cursor → Option (String × Bool × Cursor)
  | 0, _, _, _ => none
  | fuel + 1, read, g, c => do
    let finish (broken : Bool) : Option (String × Bool × Cursor) :=
      some (String.ofList read.reverse, broken, c)
    if c.atDocumentMarker || c.peek = some '#' then finish g.broken
    else
      let piece ← plainPiece? flow c.rest
      if piece.isEmpty then finish g.broken
      else
        let read := piece.reverse ++ g.text.reverse ++ read
        let c := c.skip piece.length
        let (g, c) ← readGap? indent (fuel + 1) {} c
        if (g.blanks.isEmpty && !g.broken) || (!flow && g.broken && c.column < indent) then
          some (String.ofList read.reverse, g.broken, c)
        else readPlain? flow indent fuel read g c

/-! ## Quoted scalars -/

/-- The character that a letter after a backslash stands for. -/
def escaped? : Char → Option Char
  | '0' => some '\x00'
  | 'a' => some '\x07'
  | 'b' => some '\x08'
  | 't' => some '\t'
  | '\t' => some '\t'
  | 'n' => some '\n'
  | 'v' => some '\x0b'
  | 'f' => some '\x0c'
  | 'r' => some '\r'
  | 'e' => some '\x1b'
  | ' ' => some ' '
  | '"' => some '"'
  | '/' => some '/'
  | '\\' => some '\\'
  | 'N' => some '\u0085'
  | '_' => some '\u00a0'
  | 'L' => some '\u2028'
  | 'P' => some '\u2029'
  | _ => none

/-- How many digits follow a letter that introduces a character code. -/
def codeLength? : Char → Option Nat
  | 'x' => some 2
  | 'u' => some 4
  | 'U' => some 8
  | _ => none

def hexDigit? (c : Char) : Option Nat :=
  if '0' ≤ c ∧ c ≤ '9' then some (c.toNat - '0'.toNat)
  else if 'a' ≤ c ∧ c ≤ 'f' then some (c.toNat - 'a'.toNat + 10)
  else if 'A' ≤ c ∧ c ≤ 'F' then some (c.toNat - 'A'.toNat + 10)
  else none

/-- The character with a code of `n` digits. -/
def code? (n : Nat) (cs : List Char) : Option Char := do
  let digits ← (cs.take n).mapM hexDigit?
  let value := digits.foldl (fun v d => 16 * v + d) 0
  if digits.length = n ∧ value.isValidChar then some (Char.ofNat value) else none

/-- A quoted scalar from the cursor on, after the text `read` (last first), up to its closing
quote.  A backslash at the end of a line joins two lines without a space. -/
def readQuoted? (single : Bool) : (fuel : Nat) → (read : List Char) → Cursor →
    Option (String × Cursor)
  | 0, _, _ => none
  | fuel + 1, read, c =>
    if c.atDocumentMarker then none
    else
      match c.rest with
      | [] => none
      | ch :: rest =>
        if isBlank ch || isBreak ch then do
          let (g, c) ← readGap? 0 (fuel + 1) {} c
          readQuoted? single fuel (g.text.reverse ++ read) c
        else if single then
          if ch = '\'' then
            if rest.head? = some '\'' then readQuoted? single fuel ('\'' :: read) (c.skip 2)
            else some (String.ofList read.reverse, c.skip 1)
          else readQuoted? single fuel (ch :: read) (c.skip 1)
        else if ch = '"' then some (String.ofList read.reverse, c.skip 1)
        else if ch = '\\' then
          match rest with
          | [] => none
          | e :: digits =>
            if isBreak e then do
              let (_, c) := (c.skip 1).takeBreak
              let (g, c) ← readGap? 0 (fuel + 1) { broken := true } c
              readQuoted? single fuel (g.breaks ++ read) c
            else
              match codeLength? e with
              | some n => do
                let x ← code? n digits
                readQuoted? single fuel (x :: read) (c.skip (2 + n))
              | none => do
                let x ← escaped? e
                readQuoted? single fuel (x :: read) (c.skip 2)
        else readQuoted? single fuel (ch :: read) (c.skip 1)

/-! ## Block scalars -/

/-- What becomes of the line breaks at the end of a block scalar. -/
inductive Chomping where
  | strip
  | clip
  | keep
  deriving DecidableEq

def chomping? : Char → Option Chomping
  | '-' => some .strip
  | '+' => some .keep
  | _ => none

def indentDigit? (c : Char) : Option Nat :=
  if '0' ≤ c ∧ c ≤ '9' then some (c.toNat - '0'.toNat) else none

/-- The heading of a block scalar: how its end is treated and how far it is indented, in either
order; without a digit the indentation is zero and found from the text. -/
def blockHeading? (c : Cursor) : Option (Chomping × Nat × Cursor) := do
  let chomp (c : Cursor) : Chomping × Cursor :=
    match c.peek.bind chomping? with
    | some ch => (ch, c.skip 1)
    | none => (.clip, c)
  let digit (c : Cursor) : Option (Nat × Cursor) :=
    match c.peek.bind indentDigit? with
    | some 0 => none
    | some d => some (d, c.skip 1)
    | none => some (0, c)
  if (c.peek.bind chomping?).isSome then
    let (ch, c) := chomp c
    let (d, c) ← digit c
    return (ch, d, c)
  else
    let (d, c) ← digit c
    if d = 0 then return (.clip, 0, c)
    else
      let (ch, c) := chomp c
      return (ch, d, c)

/-- Passes the indentation of a line and the empty lines before it.  While `indent` is zero, all
spaces are passed and `widest` is the deepest column reached; a tab is no indentation.  The breaks
are kept last first. -/
def readEmptyLines? (indent : Nat) : (fuel : Nat) → (widest : Nat) → (breaks : List Char) →
    Cursor → Option (Nat × List Char × Cursor)
  | 0, _, _, _ => none
  | fuel + 1, widest, breaks, c =>
    let spaces := (c.rest.takeWhile (· = ' ')).length
    let c := c.skip (if indent = 0 then spaces else min spaces (indent - c.column))
    let widest := max widest c.column
    match c.peek with
    | none => some (widest, breaks, c)
    | some ch =>
      if ch = '\t' ∧ (indent = 0 ∨ c.column < indent) then none
      else if isBreak ch then
        let (br, c) := c.takeBreak
        readEmptyLines? indent fuel widest (br :: breaks) c
      else some (widest, breaks, c)

/-- The lines of a block scalar that are indented by `indent`.  `lead` is the break after the line
before and `breaks` those of the empty lines after it, last first; `blankBefore` tells whether that
line started with a blank. -/
def readBlockLines? (folded : Bool) (chomping : Chomping) (indent : Nat) :
    (fuel : Nat) → (read lead breaks : List Char) → (blankBefore : Bool) → Cursor →
    Option (String × Cursor)
  | 0, _, _, _, _, _ => none
  | fuel + 1, read, lead, breaks, blankBefore, c =>
    if c.column = indent ∧ c.rest ≠ [] then do
      let blank := c.peek.any isBlank
      let joint :=
        if folded ∧ lead = ['\n'] ∧ ¬blankBefore ∧ ¬blank then
          if breaks = [] then [' '] else []
        else lead
      let line := c.rest.takeWhile fun ch => !isBreak ch
      let read := line.reverse ++ breaks ++ joint ++ read
      let c := c.skip line.length
      let (lead, c) := if c.rest = [] then ([], c) else let (br, c) := c.takeBreak; ([br], c)
      let (_, breaks, c) ← readEmptyLines? indent (fuel + 1) 0 [] c
      readBlockLines? folded chomping indent fuel read lead breaks blank c
    else
      let tail :=
        match chomping with
        | .strip => []
        | .clip => lead
        | .keep => breaks ++ lead
      some (String.ofList (tail ++ read).reverse, c)

/-- A block scalar after its `|` or `>`, in a block indented by `parent`. -/
def readBlock? (folded : Bool) (parent : Int) (c : Cursor) : Option (String × Cursor) := do
  let (chomping, digit, c) ← blockHeading? c
  let c ← c.skipToLineEnd?
  let c := if c.rest = [] then c else c.takeBreak.2
  let given := if digit = 0 then 0 else (max parent 0).toNat + digit
  let (widest, breaks, c) ← readEmptyLines? given (c.rest.length + 1) 0 [] c
  let indent := if given = 0 then max widest (max (parent + 1).toNat 1) else given
  readBlockLines? folded chomping indent (c.rest.length + 1) [] [] breaks false c

/-! ## Names and tags -/

/-- The name of an anchor or alias, with something after it that cannot belong to it. -/
def name? (c : Cursor) : Option (String × Cursor) :=
  let name := c.rest.takeWhile isNameChar
  let c := c.skip name.length
  if name.isEmpty then none
  else if c.gapAt 0 || c.peek.any fun ch => "?:,]\x7d%@`".toList.contains ch then
    some (String.ofList name, c)
  else none

/-- A character of a tag; brackets and commas only in full names. -/
def isTagChar (full : Bool) (c : Char) : Bool :=
  isNameChar c || ";/?:@&=+$.%!~*'()".toList.contains c ||
    (full && (c = ',' || c = '[' || c = ']'))

/-- The number of bytes of a character that starts with the byte `n`. -/
def byteWidth? (n : Nat) : Option Nat :=
  if n < 0x80 then some 1
  else if n < 0xC0 then none
  else if n < 0xE0 then some 2
  else if n < 0xF0 then some 3
  else if n < 0xF8 then some 4
  else none

/-- The bytes of a tag, where a percent sign and two digits give a byte.  The bytes of a character
follow each other, `left` of them being still to come. -/
def tagBytes? : (left : Nat) → List Char → Option (List UInt8)
  | 0, [] => some []
  | left, '%' :: a :: b :: rest => do
    let n := 16 * (← hexDigit? a) + (← hexDigit? b)
    let left ← match left with
      | 0 => (byteWidth? n).map (· - 1)
      | left + 1 => if 0x80 ≤ n ∧ n < 0xC0 then some left else none
    return UInt8.ofNat n :: (← tagBytes? left rest)
  | 0, c :: rest => if c = '%' then none else (tagBytes? 0 rest).map (UInt8.ofNat c.toNat :: ·)
  | _ + 1, _ => none

/-- The bytes of a tag from the cursor on. -/
def tagText? (full : Bool) (c : Cursor) : Option (List UInt8 × Cursor) := do
  let cs := c.rest.takeWhile (isTagChar full)
  return (← tagBytes? 0 cs, c.skip cs.length)

/-- A zero byte ends the name of a tag. -/
def untilZero (bytes : List UInt8) : List UInt8 := bytes.takeWhile (· ≠ 0)

/-- A tag handle from the cursor on: `!`, `!!` or `!name!`; without the second `!` the name is not
part of the handle. -/
def tagHandle? (c : Cursor) : Option (String × Cursor) :=
  if c.peek = some '!' then
    let name := (c.rest.drop 1).takeWhile isNameChar
    if c.peekAt (name.length + 1) = some '!' then
      some ("!" ++ String.ofList name ++ "!", c.skip (name.length + 2))
    else some ("!", c.skip 1)
  else none

/-- A tag from its `!` on. -/
def tag? (flow : Bool) (c : Cursor) : Option (TagSource × Cursor) := do
  let (tag, c) ← if c.peekAt 1 = some '<' then do
      let (name, c) ← tagText? true (c.skip 2)
      if name.isEmpty ∨ c.peek ≠ some '>' then none
      else some ((⟨"", untilZero name⟩ : TagSource), c.skip 1)
    else do
      let (handle, c) ← tagHandle? c
      let (suffix, c) ← tagText? false c
      if handle = "!" then
        if (untilZero suffix).isEmpty then some (⟨"", "!".toUTF8.toList⟩, c)
        else some (⟨handle, untilZero suffix⟩, c)
      else if suffix.isEmpty then none
      else some (⟨handle, untilZero suffix⟩, c)
  if c.gapAt 0 || (flow && c.peek = some ',') then some (tag, c) else none

/-! ## Directives -/

/-- A number of a version, of at most nine digits. -/
def versionNumber? (c : Cursor) : Option (Nat × Cursor) :=
  let digits := c.rest.takeWhile Char.isDigit
  if digits.isEmpty ∨ 9 < digits.length then none
  else some (digits.foldl (fun n d => 10 * n + (d.toNat - '0'.toNat)) 0, c.skip digits.length)

/-- A supported version, which is 1.1 or 1.2. -/
def version? (c : Cursor) : Option (Token × Cursor) := do
  let (major, c) ← versionNumber? c
  if c.peek ≠ some '.' then none
  else
    let (minor, c) ← versionNumber? (c.skip 1)
    if major = 1 ∧ (minor = 1 ∨ minor = 2) then some (.version, c) else none

/-- A tag handle and what it stands for. -/
def handleMeaning? (c : Cursor) : Option (Token × Cursor) := do
  let (handle, c) ← tagHandle? c
  if !c.peek.any isBlank then none
  else
    let (meaning, c) ← tagText? true (c.skipWhile isBlank)
    if meaning.isEmpty || !c.gapAt 0 then none
    else some (.tagHandle handle (untilZero meaning), c)

/-- A directive from the character after its `%` on, up to the end of its line. -/
def directive? (c : Cursor) : Option (Token × Cursor) := do
  let name := String.ofList (c.rest.takeWhile isNameChar)
  let c := c.skip name.length
  if !c.gapAt 0 then none
  else
    let c := c.skipWhile isBlank
    let (token, c) ←
      if name = "YAML" then version? c
      else if name = "TAG" then handleMeaning? c
      else none
    let c ← c.skipToLineEnd?
    return (token, if c.rest = [] then c else c.takeBreak.2)

end Scalar
end Yaml
end PulseSequencer
