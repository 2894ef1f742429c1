import PulseSequencer.Decimal.Basic

/-!
The shortest decimal of a double.

Of all decimals to which a given double is the nearest one, `shortest` takes one with the fewest
digits and, of those, the nearest to the double.  On the grid of decimals with `n` digits only the
two neighbours of the double have to be tried.
-/

namespace PulseSequencer

namespace Decimal

/-- Which of two decimals that are equally near is taken. -/
inductive Tie where
  /-- the larger one -/
  | up
  /-- the one with the even last digit -/
  | even
  deriving DecidableEq, Repr

/-- The positive number of `units` is the double nearest to a decimal. -/
def roundsTo (units : Nat) (d : Decimal) : Bool :=
  (d.toBinary64 false).signedUnits == (units : Int)

/-- How many zeros stand between the point and the first digit of a number below one. -/
def leadingZeros : (limit : Nat) → (units : Nat) → Nat
  | 0, _ => 0
  | limit + 1, units =>
    if Binary64.unitsPerOne ≤ 10 * units then 0 else leadingZeros limit (10 * units) + 1

/-- The exponent `k` with `10^(k-1) ≤ x < 10^k` for the positive number `x` of `units`. -/
def scale (units : Nat) : Int :=
  let whole := units / Binary64.unitsPerOne
  if whole = 0 then -(leadingZeros 330 units : Int) else (Nat.toDigits 10 whole).length

/-- The decimal with at most `n` digits that is nearest to the number of `units` and rounds to it,
if one of its two neighbours on that grid does. -/
def onGrid? (tie : Tie) (units : Nat) (n : Nat) : Option Decimal :=
  let exponent := scale units - n
  let num := if 0 ≤ exponent then units else units * 10 ^ (-exponent).toNat
  let den := Binary64.unitsPerOne * if 0 ≤ exponent then 10 ^ exponent.toNat else 1
  let below : Decimal := ⟨num / den, exponent⟩
  let above : Decimal := ⟨num / den + 1, exponent⟩
  let rest := num % den
  let takeBelow := 2 * rest < den ∨ (2 * rest = den ∧ tie = .even ∧ num / den % 2 = 0)
  match roundsTo units below, roundsTo units above with
  | true, true => some (if takeBelow then below else above)
  | true, false => some below
  | false, true => some above
  | false, false => none

/-- Drops zeros at the end of the digits. -/
def dropZeros : (limit : Nat) → Decimal → Decimal
  | 0, d => d
  | limit + 1, d =>
    if d.digits ≠ 0 ∧ d.digits % 10 = 0 then dropZeros limit ⟨d.digits / 10, d.exponent + 1⟩ else d

/-- The full decimal expansion of a number of units: one unit is `5^1074 * 10^-1074`. -/
def exact (units : Nat) : Decimal := ⟨units * 5 ^ 1074, -1074⟩

/-- The nearest of the shortest decimals that round to the positive number of `units`.  Seventeen
digits are always enough. -/
def shortest (tie : Tie) (units : Nat) : Decimal :=
  dropZeros 20 (((List.range' 1 17).findSome? (onGrid? tie units)).getD (exact units))

end Decimal

end PulseSequencer
