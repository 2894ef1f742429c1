import PulseSequencer.Decimal.Basic
import PulseSequencer.Yaml.Node

/-!
What plain scalars mean: nothing, a truth value, a whole number, a number, or else a text.
-/

namespace PulseSequencer
namespace Yaml
namespace Meaning

def isNull (s : String) : Bool := s = "null" || s = "Null" || s = "NULL" || s = "~"

def flag? (s : String) : Option Bool :=
  if s = "true" ∨ s = "True" ∨ s = "TRUE" then some true
  else if s = "false" ∨ s = "False" ∨ s = "FALSE" then some false
  else none

/-- A nonempty list of digits in a base, read as a number. -/
def inBase? (base : Nat) (cs : List Char) : Option Nat :=
  if cs.isEmpty then none
  else cs.foldlM (fun n c => do
    let d ← Scalar.hexDigit? c
    if d < base then some (base * n + d) else none) 0

/-- The magnitude of a whole number: digits after `0x`, `0o` or `0b`, or decimal digits. -/
def magnitude? : List Char → Option Nat
  | '0' :: 'x' :: digits => inBase? 16 digits
  | '0' :: 'o' :: digits => inBase? 8 digits
  | '0' :: 'b' :: digits => inBase? 2 digits
  | digits => inBase? 10 digits

/-- Digits that start with a zero, such as `017`, are no number. -/
def isZeroPadded (cs : List Char) : Bool :=
  let digits := match cs with
    | '-' :: rest => rest
    | '+' :: rest => rest
    | rest => rest
  match digits with
  | '0' :: second :: rest => (second :: rest).all Char.isDigit
  | _ => false

/-- A whole number without a minus sign, below `bound`. -/
def natural? (bound : Nat) (cs : List Char) : Option Nat :=
  if isZeroPadded cs then none
  else do
    let n ← magnitude? (match cs with
      | '+' :: rest => rest
      | rest => rest)
    if n < bound then some n else none

/-- The magnitude of a whole number with a minus sign, which is at most `bound`. -/
def negated? (bound : Nat) (cs : List Char) : Option Nat :=
  match cs with
  | '-' :: rest =>
    if isZeroPadded cs then none
    else do
      let n ← magnitude? rest
      if n ≤ bound then some n else none
  | _ => none

/-- A number: an infinity or a NaN with a leading point, or a finite decimal. -/
def number? (cs : List Char) : Option Binary64 :=
  let unsigned := match cs with
    | '+' :: rest => rest
    | rest => rest
  let text := String.ofList unsigned
  if cs.head? = some '+' ∧ (unsigned.head? = some '+' ∨ unsigned.head? = some '-') then none
  else if text = ".inf" ∨ text = ".Inf" ∨ text = ".INF" then some (.infinite false)
  else
    let full := String.ofList cs
    if full = "-.inf" ∨ full = "-.Inf" ∨ full = "-.INF" then some (.infinite true)
    else if full = ".nan" ∨ full = ".NaN" ∨ full = ".NAN" then some .nan
    else (Binary64.ofChars? unsigned).filter Binary64.isFinite

end Meaning

/-- What a scalar stands for where its type is not given. -/
inductive Datum where
  | null
  | flag (value : Bool)
  | natural (n : Nat)
  /-- a whole number written with a minus sign before `n` -/
  | negated (n : Nat)
  | number (x : Binary64)
  | text (s : String)
  deriving DecidableEq

namespace Datum

/-- A whole number; one that only more than 64 bits would hold is refused. -/
def whole? (cs : List Char) : Option (Option Datum) :=
  match Meaning.natural? (2 ^ 64) cs, Meaning.negated? (2 ^ 63) cs with
  | some n, _ => some (some (.natural n))
  | none, some n => some (some (.negated n))
  | none, none =>
    if (Meaning.natural? (2 ^ 128) cs).isSome ∨ (Meaning.negated? (2 ^ 127) cs).isSome then none
    else some none

/-- The meaning of a plain scalar without a tag. -/
def ofPlain? (s : String) : Option Datum := do
  if s.isEmpty ∨ Meaning.isNull s then return .null
  else
    match Meaning.flag? s with
    | some b => return .flag b
    | none =>
      let cs := s.toList
      match ← whole? cs with
      | some d => return d
      | none =>
        if Meaning.isZeroPadded cs then return .text s
        else return ((Meaning.number? cs).map Datum.number).getD (.text s)

end Datum

namespace Node

/-- The meaning of a scalar whose type is not given.  A standard tag asks for its type; any other
tag makes the scalar a text, but local tags are refused, and do not count if they are garbled. -/
def datum? (style : Style) (tag : Option Tag) (s : String) : Option Datum :=
  if tag.any Tag.isLocal then none
  else if tag = some (.standard "bool") then (Meaning.flag? s).map Datum.flag
  else if tag = some (.standard "int") then (Datum.whole? s.toList).join
  else if tag = some (.standard "float") then (Meaning.number? s.toList).map Datum.number
  else if tag = some (.standard "null") then if Meaning.isNull s then some .null else none
  else if style = .plain ∧ (tag = none ∨ tag = some (.garbled true)) then Datum.ofPlain? s
  else some (.text s)

/-- A scalar may be read as a given standard type: it is plain, or a literal block with that
tag. -/
def isTyped (type : String) (style : Style) (tag : Option Tag) : Bool :=
  style = .plain || (style = .literal && tag = some (.standard type))

/-- A natural number of 64 bits. -/
def natural? : Node → Option Nat
  | .scalar style tag s =>
    if isTyped "int" style tag then Meaning.natural? (2 ^ 64) s.toList else none
  | _ => none

def number? : Node → Option Binary64
  | .scalar style tag s =>
    if isTyped "float" style tag then Meaning.number? s.toList else none
  | _ => none

def flag? : Node → Option Bool
  | .scalar style tag s => if isTyped "bool" style tag then Meaning.flag? s else none
  | _ => none

/-- The text of a scalar, whatever it looks like. -/
def text? : Node → Option String
  | .scalar _ _ s => some s
  | _ => none

/-- Whether a node stands for an absent value; a null tag on anything else is refused. -/
def isNull? : Node → Option Bool
  | .scalar .plain tag s =>
    match tag with
    | none => some (s.isEmpty || Meaning.isNull s)
    | some t =>
      if t = .standard "null" then if Meaning.isNull s then some true else none
      else some false
  | _ => some false

/-- The items of a list; a value that is left out is an empty list. -/
def items? : Node → Option (List Node)
  | .list _ items => some items
  | .scalar .plain _ "" => some []
  | _ => none

end Node

end Yaml
end PulseSequencer
