import PulseSequencer.Decimal.Shortest

/-!
Written forms of doubles.

Every form writes the shortest digits that round to the number.  A `Layout` says which magnitudes
are written without a power of ten, whether a whole number keeps a fraction digit, which way ties
go, how a power of ten is marked, and how the numbers without digits are spelled.
-/

namespace PulseSequencer

/-- How a double is written. -/
structure Layout where
  tie : Decimal.Tie
  /-- whether a number whose first digit stands for `10^e` is written without a power of ten -/
  positional : (e : Int) → Bool
  /-- what follows a whole number -/
  afterWhole : String
  /-- what stands before a power of ten that is not negative -/
  powerMark : String := "e"
  infinity : String
  nan : String

namespace Layout

/-- All digits are written out: `0.000001`, `1`, `-0`. -/
def plain : Layout where
  tie := .up
  positional _ := true
  afterWhole := ""
  infinity := "inf"
  nan := "NaN"

/-- One digit before the point and a power of ten: `1e-6`, `1.5e-5`, `0e0`. -/
def scientific : Layout where
  tie := .up
  positional _ := false
  afterWhole := ""
  infinity := "inf"
  nan := "NaN"

/-- Numbers inside a report of a value: from `10^-4` up to `10^16` without a power of ten and with
a fraction digit. -/
def report : Layout where
  tie := .up
  positional e := decide (-4 ≤ e) && decide (e < 16)
  afterWhole := ".0"
  infinity := "inf"
  nan := "NaN"

/-- Numbers in a document: from `10^-5` up to `10^16` without a power of ten and with a fraction
digit. -/
def document : Layout where
  tie := .even
  positional e := decide (-5 ≤ e) && decide (e < 16)
  afterWhole := ".0"
  infinity := ".inf"
  nan := ".nan"

/-- Numbers in a JSON document, which are those of other documents but for a plus sign before a
power of ten that is not negative. -/
def json : Layout := { document with powerMark := "e+" }

/-- Digits with a power of ten, the first digit standing for `10^e`. -/
def withPower (l : Layout) (digits : String) (e : Int) : String :=
  let power := (if e < 0 then "e" else l.powerMark) ++ toString e
  match digits.toList with
  | first :: second :: rest => String.ofList (first :: '.' :: second :: rest) ++ power
  | _ => digits ++ power

/-- Digits without a power of ten, the first digit standing for `10^e`. -/
def inPlace (l : Layout) (digits : String) (e : Int) : String :=
  if e < 0 then "0." ++ "".pushn '0' (-e - 1).toNat ++ digits
  else
    let before := e.toNat + 1
    if digits.length ≤ before then
      digits ++ "".pushn '0' (before - digits.length) ++ l.afterWhole
    else
      String.ofList (digits.toList.take before) ++ "." ++ String.ofList (digits.toList.drop before)

/-- The digits of a positive decimal and the power of ten its first digit stands for. -/
def writeDecimal (l : Layout) (d : Decimal) : String :=
  let digits := toString d.digits
  let e := d.exponent + (digits.length - 1 : Nat)
  if l.positional e then l.inPlace digits e else l.withPower digits e

/-- The written form of a double. -/
def write (l : Layout) : Binary64 → String
  | .nan => l.nan
  | .infinite negative => (if negative then "-" else "") ++ l.infinity
  | .finite negative units .. =>
    (if negative then "-" else "") ++
      l.writeDecimal (if units = 0 then ⟨0, 0⟩ else Decimal.shortest l.tie units)

end Layout

end PulseSequencer
