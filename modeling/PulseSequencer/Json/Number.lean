import PulseSequencer.Decimal.Basic
import PulseSequencer.Json.Basic

/-!
JSON numbers.

Digits are collected in a significand of 64 bits.  A number that is not whole is the significand, as
a double, times a power of ten, also as a double.  Both may have been rounded before the product is
rounded again, so a number with many digits can be read as a neighbour of its nearest double.
-/

namespace PulseSequencer
namespace Json
namespace Number

/-- A significand with as many more digits as 64 bits hold, and the digits that are left over. -/
def significand (n : Nat) : List Char → Nat × List Char
  | [] => (n, [])
  | c :: cs =>
    let next := 10 * n + (c.toNat - '0'.toNat)
    if next < 2 ^ 64 then significand next cs else (n, c :: cs)

/-- The decimal that a literal is taken for.  Of the digits that are left over, those before the
point count as zeros and those after it as nothing. -/
def ofLiteral (l : Decimal.Literal) : Decimal :=
  let fraction := l.fraction.getD []
  let (whole, zeros) := significand 0 l.whole
  let (digits, dropped) := significand whole fraction
  ⟨digits, l.exponent.getD 0 + zeros.length - (fraction.length - dropped.length : Nat)⟩

/-- The double nearest to a power of ten. -/
def powerOfTen (n : Nat) : Binary64 := .ofNat (10 ^ n)

/-- The largest power of ten among the doubles. -/
def maxPower : Nat := 308

/-- Divides by a power of ten, by the largest one first if that is too small. -/
def divide (x : Binary64) (n : Nat) : Binary64 :=
  if n ≤ maxPower then x / powerOfTen n
  else if x.isZero then x
  else divide (x / powerOfTen maxPower) (n - maxPower)
termination_by n
decreasing_by simp only [maxPower] at *; omega

/-- The significand of a decimal times its power of ten. -/
def scaled (d : Decimal) : Binary64 :=
  let x := Binary64.ofNat d.digits
  if d.exponent < 0 then divide x (-d.exponent).toNat
  else if d.exponent ≤ maxPower then x * powerOfTen d.exponent.toNat
  else if x.isZero then x
  else .infinite false

end Number

/-- The number spelled by a literal with an optional minus sign.  A whole number is an integer if
64 bits hold it; minus zero is not a whole number. -/
def number? (negative : Bool) (cs : List Char) : Option Json := do
  let l ← Decimal.Literal.ofChars? cs
  if l.whole.isEmpty ∨ l.fraction = some [] then none
  else if l.whole.head? = some '0' ∧ l.whole ≠ ['0'] then none
  else
    let n := Decimal.valueOfDigits l.whole
    if l.isWhole ∧ ¬negative ∧ n < 2 ^ 64 then return .integer n
    else if l.isWhole ∧ negative ∧ n ≠ 0 ∧ n ≤ 2 ^ 63 then return .integer (-n)
    else
      let x := Number.scaled (Number.ofLiteral l)
      return if x.isFinite then .number (if negative then -x else x) else .unreadable

end Json
end PulseSequencer
