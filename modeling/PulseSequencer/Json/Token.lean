import PulseSequencer.Json.Number

/-!
JSON texts as tokens.

The text is read one character at a time; `Scan` is what is known after some of it.  Between
tokens there may be blanks, a word runs up to the next blank, bracket, comma, colon or quote, and a
quoted text runs up to its closing quote.
-/

namespace PulseSequencer
namespace Json

inductive Token where
  | openList
  | closeList
  | openObject
  | closeObject
  | comma
  | colon
  /-- a literal or a number -/
  | value (v : Json)
  /-- a quoted text, or none if it holds half a character -/
  | text (s : Option String)

namespace Token

/-- The value of a word. -/
def word? (cs : List Char) : Option Json :=
  match cs with
  | ['n', 'u', 'l', 'l'] => some .null
  | ['t', 'r', 'u', 'e'] => some (.bool true)
  | ['f', 'a', 'l', 's', 'e'] => some (.bool false)
  | '-' :: digits => number? true digits
  | digits => number? false digits

/-- Joins the pairs of code units that stand for one character beyond the 16-bit range; fails on
half a pair. -/
def characters? : List Nat → Option (List Char)
  | [] => some []
  | high :: rest =>
    if high < 0xD800 ∨ 0xDFFF < high then (characters? rest).map (Char.ofNat high :: ·)
    else
      match rest with
      | low :: rest' =>
        if high < 0xDC00 ∧ 0xDC00 ≤ low ∧ low ≤ 0xDFFF then
          (characters? rest').map
            (Char.ofNat (0x10000 + (high - 0xD800) * 0x400 + (low - 0xDC00)) :: ·)
        else none
      | [] => none

/-- A quoted text, given its code points and code units. -/
def ofUnits (units : List Nat) : Token := .text ((characters? units).map String.ofList)

/-- The character that a letter after a backslash stands for. -/
def escaped? : Char → Option Nat
  | '"' => some 0x22
  | '\\' => some 0x5C
  | '/' => some 0x2F
  | 'b' => some 0x08
  | 'f' => some 0x0C
  | 'n' => some 0x0A
  | 'r' => some 0x0D
  | 't' => some 0x09
  | _ => none

def hexDigit? (c : Char) : Option Nat :=
  if '0' ≤ c ∧ c ≤ '9' then some (c.toNat - '0'.toNat)
  else if 'a' ≤ c ∧ c ≤ 'f' then some (c.toNat - 'a'.toNat + 10)
  else if 'A' ≤ c ∧ c ≤ 'F' then some (c.toNat - 'A'.toNat + 10)
  else none

def isBlank (c : Char) : Bool := c = ' ' || c = '\n' || c = '\t' || c = '\r'

/-- A token of a single character. -/
def punctuation? : Char → Option Token
  | '[' => some .openList
  | ']' => some .closeList
  | '\x7b' => some .openObject
  | '\x7d' => some .closeObject
  | ',' => some .comma
  | ':' => some .colon
  | _ => none

/-- Where in the text the scan is; what has been read of a token is kept last first. -/
inductive Place where
  | between
  | word (read : List Char)
  | quoted (units : List Nat)
  /-- after a backslash -/
  | escape (units : List Nat)
  /-- inside a four-digit code, with `left` digits to come -/
  | code (units : List Nat) (left : Nat) (read : Nat)

/-- A scan part way through a text: the tokens so far, last first, and the place. -/
structure Scan where
  tokens : List Token
  place : Place

/-- The scan after a character outside of words and quotes. -/
def atBoundary (tokens : List Token) (c : Char) : Scan :=
  if isBlank c then ⟨tokens, .between⟩
  else if c = '"' then ⟨tokens, .quoted []⟩
  else
    match punctuation? c with
    | some t => ⟨t :: tokens, .between⟩
    | none => ⟨tokens, .word [c]⟩

def isBoundary (c : Char) : Bool := isBlank c || c = '"' || (punctuation? c).isSome

/-- The scan after one more character. -/
def Scan.step (s : Scan) (c : Char) : Option Scan :=
  match s.place with
  | .between => some (atBoundary s.tokens c)
  | .word read =>
    if isBoundary c then (word? read.reverse).map fun v => atBoundary (.value v :: s.tokens) c
    else some { s with place := .word (c :: read) }
  | .quoted units =>
    if c = '"' then some ⟨ofUnits units.reverse :: s.tokens, .between⟩
    else if c = '\\' then some { s with place := .escape units }
    else if c.toNat < 0x20 then none
    else some { s with place := .quoted (c.toNat :: units) }
  | .escape units =>
    if c = 'u' then some { s with place := .code units 4 0 }
    else (escaped? c).map fun u => { s with place := .quoted (u :: units) }
  | .code units left read =>
    (hexDigit? c).map fun d =>
      let read := 16 * read + d
      if left ≤ 1 then { s with place := .quoted (read :: units) }
      else { s with place := .code units (left - 1) read }

/-- The tokens at the end of a text, in order. -/
def Scan.finish (s : Scan) : Option (List Token) :=
  match s.place with
  | .between => some s.tokens.reverse
  | .word read => (word? read.reverse).map fun v => (.value v :: s.tokens).reverse
  | _ => none

/-- The tokens of a text. -/
def scan (cs : List Char) : Option (List Token) :=
  (cs.foldlM Scan.step ⟨[], .between⟩).bind Scan.finish

end Token
end Json
end PulseSequencer
