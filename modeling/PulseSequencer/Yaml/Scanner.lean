import PulseSequencer.Yaml.Scalar

/-!
From a YAML text to its tokens.

Indentation and the brackets of flow collections give the text its structure.  Whether a scalar is
the key of a mapping is known only when a colon follows it; until then it is remembered as a
possible key, and the tokens that open the mapping are put before it when the colon comes.
-/

namespace PulseSequencer
namespace Yaml

/-- Something that is a key if a colon follows. -/
structure PossibleKey where
  /-- the number of tokens before it -/
  before : Nat
  index : Nat
  line : Nat
  column : Nat
  /-- nothing else than a key may stand here -/
  required : Bool

/-- A scan part way through a text. -/
structure Scanner where
  cursor : Cursor
  /-- the length of the whole text, which bounds every loop over it -/
  length : Nat
  /-- the tokens so far, last first, and their number -/
  tokens : List Token := []
  count : Nat := 0
  /-- the column of the innermost block, and those of the blocks around it -/
  indent : Int := -1
  outerIndents : List Int := []
  /-- a key may start here -/
  keyAllowed : Bool := true
  possibleKey : Option PossibleKey := none
  /-- the possible keys before each open flow collection -/
  outerKeys : List (Option PossibleKey) := []

namespace Scanner

def inFlow (s : Scanner) : Bool := !s.outerKeys.isEmpty

def emit (s : Scanner) (t : Token) : Scanner :=
  { s with tokens := t :: s.tokens, count := s.count + 1 }

/-- Puts a token before those that came after the first `before`. -/
def emitAt (s : Scanner) (before : Nat) (t : Token) : Scanner :=
  let later := s.count - before
  { s with tokens := s.tokens.take later ++ t :: s.tokens.drop later, count := s.count + 1 }

def moveTo (s : Scanner) (c : Cursor) : Scanner := { s with cursor := c }

def skip (s : Scanner) (n : Nat) : Scanner := s.moveTo (s.cursor.skip n)

/-! ## Possible keys -/

/-- A possible key is given up once its line has ended or it is longer than 1024 bytes. -/
def refresh (c : Cursor) : Option PossibleKey → Option (Option PossibleKey)
  | none => some none
  | some k =>
    if k.line < c.line ∨ k.index + 1024 < c.index then if k.required then none else some none
    else some (some k)

def refreshKeys? (s : Scanner) : Option Scanner := do
  return { s with
    possibleKey := ← refresh s.cursor s.possibleKey
    outerKeys := ← s.outerKeys.mapM (refresh s.cursor) }

/-- Gives up the possible key. -/
def forgetKey? (s : Scanner) : Option Scanner :=
  match s.possibleKey with
  | some k => if k.required then none else some { s with possibleKey := none }
  | none => some s

/-- Remembers that a key may start here. -/
def noteKey? (s : Scanner) : Option Scanner :=
  if s.keyAllowed then do
    let s ← s.forgetKey?
    let k : PossibleKey :=
      { before := s.count, index := s.cursor.index, line := s.cursor.line,
        column := s.cursor.column, required := !s.inFlow && s.indent = s.cursor.column }
    return { s with possibleKey := some k }
  else some s

/-! ## Blocks -/

/-- Opens a block at a column, if it is deeper than the innermost one. -/
def openBlock (s : Scanner) (column : Nat) (before : Option Nat) (t : Token) : Scanner :=
  if s.inFlow ∨ (column : Int) ≤ s.indent then s
  else
    let s := { s with indent := column, outerIndents := s.indent :: s.outerIndents }
    match before with
    | some n => s.emitAt n t
    | none => s.emit t

/-- How many blocks lie deeper than `column`, and the blocks that are left. -/
def deeper (column : Int) : (indent : Int) → (outer : List Int) → Nat × Int × List Int
  | indent, [] => (0, indent, [])
  | indent, next :: outer =>
    if column < indent then
      let (n, indent, outer) := deeper column next outer
      (n + 1, indent, outer)
    else (0, indent, next :: outer)

/-- Closes the blocks that lie deeper than `column`. -/
def closeBlocks (s : Scanner) (column : Int) : Scanner :=
  if s.inFlow then s
  else
    let (n, indent, outer) := deeper column s.indent s.outerIndents
    { s with
      tokens := List.replicate n .blockEnd ++ s.tokens, count := s.count + n
      indent := indent, outerIndents := outer }

/-! ## Tokens -/

/-- Passes blanks, comments and line breaks, and a byte order mark that starts a line, which counts
as a column.  Where a key may start, a tab is no blank; a new line of a block may start a key. -/
def skipGaps : (fuel : Nat) → Scanner → Scanner
  | 0, s => s
  | fuel + 1, s =>
    let blank (ch : Char) : Bool := ch = ' ' || (ch = '\t' && (s.inFlow || !s.keyAllowed))
    let c := s.cursor
    let c := if c.column = 0 ∧ c.peek = some '\ufeff' then c.skip 1 else c
    let c := c.skipWhile blank
    let c := if c.peek = some '#' then c.skipWhile (fun ch => !isBreak ch) else c
    if c.peek.any isBreak then
      skipGaps fuel { s with cursor := c.takeBreak.2, keyAllowed := s.keyAllowed || !s.inFlow }
    else s.moveTo c

/-- Ends all blocks, as a directive or a document marker does. -/
def endBlocks? (s : Scanner) : Option Scanner := do
  let s ← (s.closeBlocks (-1)).forgetKey?
  return { s with keyAllowed := false }

def documentMarker? (s : Scanner) (t : Token) : Option Scanner := do
  return ((← s.endBlocks?).skip 3).emit t

def directive? (s : Scanner) : Option Scanner := do
  let s ← s.endBlocks?
  let (token, c) ← Scalar.directive? (s.cursor.skip 1)
  return (s.moveTo c).emit token

def flowStart? (s : Scanner) (t : Token) : Option Scanner := do
  let s ← s.noteKey?
  let s := { s with
    outerKeys := s.possibleKey :: s.outerKeys, possibleKey := none, keyAllowed := true }
  return (s.skip 1).emit t

def flowEnd? (s : Scanner) (t : Token) : Option Scanner := do
  let s ← s.forgetKey?
  let s := match s.outerKeys with
    | k :: outer => { s with possibleKey := k, outerKeys := outer }
    | [] => s
  return ({ s with keyAllowed := false }.skip 1).emit t

def flowEntry? (s : Scanner) : Option Scanner := do
  let s ← s.forgetKey?
  return ({ s with keyAllowed := true }.skip 1).emit .flowEntry

/-- In a block an entry or a key may only stand where a key may start. -/
def startEntry? (s : Scanner) (t : Token) : Option Scanner :=
  if s.inFlow then some s
  else if s.keyAllowed then some (s.openBlock s.cursor.column none t)
  else none

def blockEntry? (s : Scanner) : Option Scanner := do
  let s ← (← s.startEntry? .blockListStart).forgetKey?
  return ({ s with keyAllowed := true }.skip 1).emit .blockEntry

def key? (s : Scanner) : Option Scanner := do
  let s ← (← s.startEntry? .blockMappingStart).forgetKey?
  return ({ s with keyAllowed := !s.inFlow }.skip 1).emit .key

/-- A colon makes the possible key a key; without one it stands for a missing key. -/
def value? (s : Scanner) : Option Scanner := do
  match s.possibleKey with
  | some k =>
    let s := (s.emitAt k.before .key).openBlock k.column (some k.before) .blockMappingStart
    return ({ s with possibleKey := none, keyAllowed := false }.skip 1).emit .value
  | none =>
    let s ← s.startEntry? .blockMappingStart
    return ({ s with keyAllowed := !s.inFlow }.skip 1).emit .value

/-- Notes that something read from the cursor may be a key, and reads it. -/
def named? (s : Scanner) (read : Cursor → Option (Token × Cursor)) : Option Scanner := do
  let s ← s.noteKey?
  let (t, c) ← read s.cursor
  return ({ s with keyAllowed := false }.moveTo c).emit t

def blockScalar? (s : Scanner) (style : Style) : Option Scanner := do
  let s ← s.forgetKey?
  let (text, c) ← Scalar.readBlock? (style = .folded) s.indent (s.cursor.skip 1)
  return ({ s with keyAllowed := true }.moveTo c).emit (.scalar style text)

def quoted? (s : Scanner) (style : Style) : Option Scanner :=
  s.named? fun c => do
    let (text, c) ←
      Scalar.readQuoted? (style = .singleQuoted) (s.length + 1) [] (c.skip 1)
    return (.scalar style text, c)

def plain? (s : Scanner) : Option Scanner := do
  let s ← s.noteKey?
  let c := s.cursor
  let (text, broken, c) ←
    Scalar.readPlain? s.inFlow (s.indent + 1).toNat (s.length + 1) [] {} c
  return ({ s with keyAllowed := broken }.moveTo c).emit (.scalar .plain text)

/-- A plain scalar starts with a character that is no indicator; `-`, `?` and `:` start one if
something follows directly. -/
def startsPlain (s : Scanner) (ch : Char) : Bool :=
  let next := s.cursor.peekAt 1
  if ch = '-' then !next.any isBlank
  else if ch = '?' ∨ ch = ':' then !s.inFlow && !s.cursor.gapAt 1
  else !isBlank ch && !isBreak ch && !",[]\x7b\x7d#&*!|>'\"%@`".toList.contains ch

/-- Reads the token that starts with the character at the cursor. -/
def token? (s : Scanner) (ch : Char) : Option Scanner :=
  let c := s.cursor
  if c.column = 0 ∧ ch = '%' then s.directive?
  else if c.atMarker '-' then s.documentMarker? .documentStart
  else if c.atMarker '.' then s.documentMarker? .documentEnd
  else if ch = '[' then s.flowStart? .flowListStart
  else if ch = '\x7b' then s.flowStart? .flowMappingStart
  else if ch = ']' then s.flowEnd? .flowListEnd
  else if ch = '\x7d' then s.flowEnd? .flowMappingEnd
  else if ch = ',' then s.flowEntry?
  else if ch = '-' ∧ c.gapAt 1 then s.blockEntry?
  else if ch = '?' ∧ (s.inFlow ∨ c.gapAt 1) then s.key?
  else if ch = ':' ∧ (s.inFlow ∨ c.gapAt 1) then s.value?
  else if ch = '*' then
    s.named? fun c => (Scalar.name? (c.skip 1)).map fun (name, c) => (.alias name, c)
  else if ch = '&' then
    s.named? fun c => (Scalar.name? (c.skip 1)).map fun (name, c) => (.anchor name, c)
  else if ch = '!' then
    s.named? fun c => (Scalar.tag? s.inFlow c).map fun (tag, c) => (.tag tag, c)
  else if ch = '|' ∧ ¬s.inFlow then s.blockScalar? .literal
  else if ch = '>' ∧ ¬s.inFlow then s.blockScalar? .folded
  else if ch = '\'' then s.quoted? .singleQuoted
  else if ch = '"' then s.quoted? .doubleQuoted
  else if s.startsPlain ch then s.plain?
  else none

/-- Reads tokens up to the end of the text. -/
def run? : (fuel : Nat) → Scanner → Option (List Token)
  | 0, _ => none
  | fuel + 1, s => do
    let s ← (skipGaps (s.length + 1) s).refreshKeys?
    let s := s.closeBlocks s.cursor.column
    match s.cursor.peek with
    | none =>
      let s ← s.endBlocks?
      return s.tokens.reverse
    | some ch => run? fuel (← s.token? ch)

end Scanner

/-- The tokens of a text. -/
def scan? (text : String) : Option (List Token) :=
  let cs := text.toList
  if cs.all isPermitted then
    Scanner.run? (cs.length + 2) { cursor := { rest := cs }, length := cs.length }
  else none

end Yaml
end PulseSequencer
