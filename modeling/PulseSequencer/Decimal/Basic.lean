import PulseSequencer.Binary64.Basic

/-!
Decimal numbers and the doubles they denote.

A `Decimal` is a natural number of tenths, hundredths, and so on.  Its double is the nearest one,
found in exact arithmetic.  A `Literal` is the written form `12.5e-3` taken apart, so that formats
with stricter spelling rules can inspect the parts before they are evaluated.
-/

namespace PulseSequencer

/-- The number `digits * 10^exponent`. -/
structure Decimal where
  digits : Nat
  exponent : Int
  deriving DecidableEq, Repr

namespace Decimal

/-- The double nearest to a decimal.  Beyond `10^400` and below `10^-400` every decimal is an
infinity or a zero, so the power of ten is not computed there. -/
def toBinary64 (negative : Bool) (d : Decimal) : Binary64 :=
  if d.digits = 0 ∨ d.exponent + d.digits.log2 + 1 < -400 then .ofUnits negative 0 1
  else if 400 < d.exponent then .infinite negative
  else if 0 ≤ d.exponent then .ofRatio negative (d.digits * 10 ^ d.exponent.toNat) 1
  else .ofRatio negative d.digits (10 ^ (-d.exponent).toNat)

/-- The number a list of decimal digits spells. -/
def valueOfDigits (cs : List Char) : Nat :=
  cs.foldl (fun n c => 10 * n + (c.toNat - '0'.toNat)) 0

/-- A nonempty list of digits, read as a number. -/
def natural? (cs : List Char) : Option Nat :=
  if cs.isEmpty || !cs.all Char.isDigit then none else some (valueOfDigits cs)

/-- An unsigned decimal number as written: `whole`, the digits after a point if there is one, and
the power of ten if there is one. -/
structure Literal where
  whole : List Char
  fraction : Option (List Char)
  exponent : Option Int

namespace Literal

/-- The power of ten at the end of a literal; `some none` if there is none. -/
def exponent? : List Char → Option (Option Int)
  | [] => some none
  | mark :: rest =>
    if mark = 'e' ∨ mark = 'E' then
      match rest with
      | '-' :: cs => (natural? cs).map fun n => some (-n)
      | '+' :: cs => (natural? cs).map fun n => some n
      | cs => (natural? cs).map fun n => some n
    else none

/-- Takes a literal apart; digits must stand before or after the point. -/
def ofChars? (cs : List Char) : Option Literal :=
  let whole := cs.takeWhile Char.isDigit
  match cs.dropWhile Char.isDigit with
  | '.' :: rest =>
    let fraction := rest.takeWhile Char.isDigit
    if whole.isEmpty && fraction.isEmpty then none
    else (exponent? (rest.dropWhile Char.isDigit)).map (⟨whole, some fraction, ·⟩)
  | rest =>
    if whole.isEmpty then none else (exponent? rest).map (⟨whole, none, ·⟩)

/-- The number a literal denotes. -/
def toDecimal (l : Literal) : Decimal :=
  let fraction := l.fraction.getD []
  ⟨valueOfDigits (l.whole ++ fraction), l.exponent.getD 0 - fraction.length⟩

/-- A literal without point and power of ten. -/
def isWhole (l : Literal) : Bool := l.fraction.isNone && l.exponent.isNone

end Literal

end Decimal

namespace Binary64

/-- An unsigned number: `inf`, `infinity` and `nan` in any case, or a decimal literal. -/
def ofUnsigned? (negative : Bool) (cs : List Char) : Option Binary64 :=
  let word := String.ofList (cs.map Char.toLower)
  if word = "inf" ∨ word = "infinity" then some (.infinite negative)
  else if word = "nan" then some .nan
  else (Decimal.Literal.ofChars? cs).map fun l => l.toDecimal.toBinary64 negative

/-- Reads a number with an optional sign. -/
def ofChars? : List Char → Option Binary64
  | '-' :: cs => ofUnsigned? true cs
  | '+' :: cs => ofUnsigned? false cs
  | cs => ofUnsigned? false cs

def ofString? (s : String) : Option Binary64 := ofChars? s.toList

end Binary64

end PulseSequencer
