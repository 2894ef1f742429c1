/-!
Numbers in a given base, filled with zeros from the left.
-/

namespace PulseSequencer
namespace Text

/-- The text of `n` in `base` with at least `width` digits. -/
def padded (base width n : Nat) : String :=
  let digits := Nat.toDigits base n
  "".pushn '0' (width - digits.length) ++ String.ofList digits

/-- A number in base two with at least 24 digits, marked `0b`. -/
def binary24 (n : Nat) : String := "0b" ++ padded 2 24 n

/-- A number in base sixteen with at least eight digits, marked `0x`. -/
def hex32 (n : Nat) : String := "0x" ++ padded 16 8 n

/-- A number in base sixteen, marked `0x`. -/
def hex (n : Nat) : String := "0x" ++ padded 16 1 n

/-- A text filled with blanks from the left up to `width` characters. -/
def alignRight (width : Nat) (s : String) : String := "".pushn ' ' (width - s.length) ++ s

end Text
end PulseSequencer
