import PulseSequencer.Binary64.Rounding

/-!
Double-precision numbers as exact values.

A finite number is a sign and a count of units, where one unit is the smallest positive double,
`2^-1074`.  The sign of a zero is kept.  Each arithmetic operation computes its exact result and
rounds it once, so a statement about an operation is a statement about `roundUnits`.
-/

namespace PulseSequencer

namespace Binary64

/-- The number one, counted in units. -/
@[irreducible] def unitsPerOne : Nat := 2 ^ 1074

/-- The first power of two beyond every finite magnitude, counted in units. -/
@[irreducible] def unitsBound : Nat := 2 ^ 2098

end Binary64

/-- A double-precision number: not a number, a signed infinity, or a signed count of units of
`2^-1074` with at most 53 significant bits. -/
inductive Binary64 where
  | nan
  | infinite (negative : Bool)
  | finite (negative : Bool) (units : Nat) (below : units < Binary64.unitsBound)
      (fits : Binary64.SignificandFits units)
  deriving DecidableEq

namespace Binary64

/-- The double nearest to `num / den` units with the given sign; beyond the finite range an
infinity. -/
def ofUnits (negative : Bool) (num den : Nat) : Binary64 :=
  let units := roundUnits num den
  if below : units < unitsBound then .finite negative units below (fits_roundUnits num den)
  else .infinite negative

/-- The double nearest to a whole number of units; an exact zero takes the given sign. -/
def ofSignedUnits (zeroNegative : Bool) (units : Int) : Binary64 :=
  if units = 0 then ofUnits zeroNegative 0 1
  else ofUnits (decide (units < 0)) units.natAbs 1

/-- The double nearest to the ratio `num / den`. -/
def ofRatio (negative : Bool) (num den : Nat) : Binary64 :=
  ofUnits negative (num * unitsPerOne) den

/-- The double nearest to a natural number. -/
def ofNat (n : Nat) : Binary64 := ofRatio false n 1

/-- The double nearest to a whole number. -/
def ofInt (n : Int) : Binary64 := ofRatio (decide (n < 0)) n.natAbs 1

def zero : Binary64 := ofNat 0

def one : Binary64 := ofNat 1

instance : Inhabited Binary64 := ⟨zero⟩

/-! ## Parts -/

def isFinite : Binary64 → Bool
  | .finite .. => true
  | _ => false

def isNaN : Binary64 → Bool
  | .nan => true
  | _ => false

/-- The sign of a number, which a zero has as well. -/
def isNegative : Binary64 → Bool
  | .nan => false
  | .infinite s => s
  | .finite s .. => s

/-- The value of a finite number, counted in units; zero for the others. -/
def signedUnits : Binary64 → Int
  | .finite true units .. => -units
  | .finite false units .. => units
  | _ => 0

def isZero : Binary64 → Bool
  | .finite _ units .. => units == 0
  | _ => false

/-! ## Order

Comparisons are those of the values: the two zeros are equal, and a NaN is in no relation to any
number, not even to itself. -/

/-- `a` lies strictly below `b`. -/
def lt : Binary64 → Binary64 → Bool
  | .nan, _ => false
  | _, .nan => false
  | .infinite s, .infinite t => s && !t
  | .infinite s, .finite .. => s
  | .finite .., .infinite t => !t
  | a@(.finite ..), b@(.finite ..) => decide (a.signedUnits < b.signedUnits)

/-- `a` and `b` have the same value. -/
def equal : Binary64 → Binary64 → Bool
  | .infinite s, .infinite t => s == t
  | a@(.finite ..), b@(.finite ..) => decide (a.signedUnits = b.signedUnits)
  | _, _ => false

/-- `a` lies at or below `b`. -/
def le (a b : Binary64) : Bool := a.lt b || a.equal b

instance : LT Binary64 := ⟨fun a b => a.lt b = true⟩

instance : LE Binary64 := ⟨fun a b => a.le b = true⟩

instance (a b : Binary64) : Decidable (a < b) := inferInstanceAs (Decidable (a.lt b = true))

instance (a b : Binary64) : Decidable (a ≤ b) := inferInstanceAs (Decidable (a.le b = true))

/-- The total order of doubles: that of the values, with the negative zero before the other one and
NaN after all numbers. -/
def totalLe (a b : Binary64) : Bool :=
  b.isNaN || !a.isNaN && (a.lt b || a.equal b && (a.isNegative || !b.isNegative))

/-- The smaller number; of two equal ones the first, and beside a NaN the other one. -/
def lesser (a b : Binary64) : Binary64 :=
  if a.isNaN then b else if b < a then b else a

/-- The larger number; of two equal ones the first, and beside a NaN the other one. -/
def greater (a b : Binary64) : Binary64 :=
  if a.isNaN then b else if a < b then b else a

/-! ## Arithmetic -/

def neg : Binary64 → Binary64
  | .nan => .nan
  | .infinite s => .infinite !s
  | .finite s units below fits => .finite (!s) units below fits

def abs : Binary64 → Binary64
  | .nan => .nan
  | .infinite _ => .infinite false
  | .finite _ units below fits => .finite false units below fits

/-- The exact sum, rounded once.  A sum of zero is negative only if both summands are. -/
def add : Binary64 → Binary64 → Binary64
  | .nan, _ => .nan
  | _, .nan => .nan
  | .infinite s, .infinite t => if s = t then .infinite s else .nan
  | .infinite s, .finite .. => .infinite s
  | .finite .., .infinite t => .infinite t
  | a@(.finite s ..), b@(.finite t ..) => ofSignedUnits (s && t) (a.signedUnits + b.signedUnits)

def sub (a b : Binary64) : Binary64 := a.add b.neg

/-- The exact product, rounded once. -/
def mul : Binary64 → Binary64 → Binary64
  | .nan, _ => .nan
  | _, .nan => .nan
  | .infinite s, .infinite t => .infinite (s != t)
  | .infinite s, .finite t units .. => if units = 0 then .nan else .infinite (s != t)
  | .finite s units .., .infinite t => if units = 0 then .nan else .infinite (s != t)
  | .finite s a .., .finite t b .. => ofUnits (s != t) (a * b) unitsPerOne

/-- The exact quotient, rounded once. -/
def div : Binary64 → Binary64 → Binary64
  | .nan, _ => .nan
  | _, .nan => .nan
  | .infinite _, .infinite _ => .nan
  | .infinite s, .finite t .. => .infinite (s != t)
  | .finite s .., .infinite t => ofUnits (s != t) 0 1
  | .finite s a .., .finite t b .. =>
    if b = 0 then if a = 0 then .nan else .infinite (s != t)
    else ofUnits (s != t) (a * unitsPerOne) b

instance : Neg Binary64 := ⟨neg⟩

instance : Add Binary64 := ⟨add⟩

instance : Sub Binary64 := ⟨sub⟩

instance : Mul Binary64 := ⟨mul⟩

instance : Div Binary64 := ⟨div⟩

/-! ## Whole numbers -/

/-- The whole number nearest to a number; a half goes away from zero. -/
def round : Binary64 → Binary64
  | .finite s units .. =>
    ofUnits s ((2 * units + unitsPerOne) / (2 * unitsPerOne) * unitsPerOne) 1
  | x => x

/-- The largest whole number at or below a number. -/
def floor : Binary64 → Binary64
  | .finite false units .. => ofUnits false (units / unitsPerOne * unitsPerOne) 1
  | .finite true units .. =>
    ofUnits true ((units + unitsPerOne - 1) / unitsPerOne * unitsPerOne) 1
  | x => x

/-- The whole part of a number, cut to the range of 64-bit signed integers; zero for a NaN. -/
def toInt64Range : Binary64 → Int
  | .nan => 0
  | .infinite s => if s then -(2 ^ 63) else 2 ^ 63 - 1
  | .finite s units .. =>
    let whole : Int := units / unitsPerOne
    if s then max (-whole) (-(2 ^ 63)) else min whole (2 ^ 63 - 1)

end Binary64

end PulseSequencer
