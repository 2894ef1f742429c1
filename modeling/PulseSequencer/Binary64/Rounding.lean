/-!
Rounding a ratio of naturals to 53 significant bits.

A magnitude is counted in units of the smallest positive double, so a ratio `num / den` of units
rounds to a whole number of units.  `roundUnits` keeps at most 53 significant bits of it, the
nearest such number, and a half goes to the even neighbour.  The main statement is
`fits_roundUnits`: the result has at most 53 significant bits.
-/

namespace PulseSequencer

/-- Powers are those of the core library, whatever algebra is in scope. -/
@[default_instance 20000]
instance (priority := high) corePow {α : Type} [NatPow α] : Pow α Nat := instPowNat

namespace Binary64

/-- The whole number nearest to `num / den`; a half goes to the even neighbour. -/
def nearest (num den : Nat) : Nat :=
  let whole := num / den
  let rest := num % den
  if 2 * rest < den then whole
  else if den < 2 * rest then whole + 1
  else whole + whole % 2

/-- How many binary places of the whole part of `num / den` do not fit into 53 bits. -/
def excess (num den : Nat) : Nat := (num / den).log2 - 52

/-- The number of units nearest to `num / den` that has at most 53 significant bits. -/
def roundUnits (num den : Nat) : Nat :=
  let places := excess num den
  nearest num (den * 2 ^ places) * 2 ^ places

/-- A number has at most 53 significant bits: all places below them are zero. -/
def SignificandFits (units : Nat) : Prop := units % 2 ^ (units.log2 - 52) = 0

instance (units : Nat) : Decidable (SignificandFits units) :=
  inferInstanceAs (Decidable (units % 2 ^ (units.log2 - 52) = 0))

theorem nearest_le (num den : Nat) : nearest num den ≤ num / den + 1 := by
  unfold nearest
  dsimp only
  split
  · omega
  · split <;> omega

/-- The whole part of a ratio fits into 53 bits once the excess places are dropped. -/
theorem whole_lt (num den : Nat) : num / (den * 2 ^ excess num den) < 2 ^ 53 := by
  rw [← Nat.div_div_eq_div_mul, Nat.div_lt_iff_lt_mul (Nat.two_pow_pos _), ← Nat.pow_add]
  refine Nat.lt_of_lt_of_le Nat.lt_log2_self (Nat.pow_le_pow_right (by decide) ?_)
  unfold excess
  omega

theorem fits_mul_two_pow {m : Nat} (k : Nat) (hm : m ≤ 2 ^ 53) : SignificandFits (m * 2 ^ k) := by
  unfold SignificandFits
  apply Nat.mod_eq_zero_of_dvd
  by_cases h0 : m = 0
  · simp [h0]
  by_cases h53 : m = 2 ^ 53
  · subst h53
    rw [← Nat.pow_add, Nat.log2_two_pow]
    exact Nat.pow_dvd_pow 2 (by omega)
  · have hlog : m.log2 < 53 := (Nat.log2_lt h0).2 (by omega)
    have hle : (m * 2 ^ k).log2 - 52 ≤ k := by
      have hpos : m * 2 ^ k ≠ 0 := Nat.mul_ne_zero h0 (Nat.ne_of_gt (Nat.two_pow_pos k))
      have : (m * 2 ^ k).log2 < 53 + k := by
        rw [Nat.log2_lt hpos, Nat.pow_add]
        exact Nat.mul_lt_mul_of_pos_right ((Nat.log2_lt h0).1 hlog) (Nat.two_pow_pos k)
      omega
    exact Nat.dvd_trans (Nat.pow_dvd_pow 2 hle) (Nat.dvd_mul_left _ _)

theorem fits_roundUnits (num den : Nat) : SignificandFits (roundUnits num den) :=
  fits_mul_two_pow _ <| Nat.le_trans (nearest_le _ _) (whole_lt num den)

end Binary64
end PulseSequencer
