import Mathlib.Algebra.Order.Field.Basic
import Mathlib.Algebra.Order.Field.Rat
import Mathlib.Tactic.Linarith
import Mathlib.Tactic.NormNum
import PulseSequencer.Proofs.Binary64.Whole

/-!
Exact values of doubles, and how far an operation is from its exact result.

The value of a finite double is its units over those of one.  A quotient differs from the exact one
by a part in `2^53`, at least of one (`div_error`), and a product by a small whole number by a part
in `2^53` of itself (`mul_whole_error`), since it is a whole number of units before it is rounded.
-/

namespace PulseSequencer
namespace Binary64

/-- The exact value of a finite number. -/
def value (a : Binary64) : ℚ := a.signedUnits / unitsPerOne

theorem two_pow_le_unitsPerOne : 2 ^ 52 ≤ unitsPerOne := by decide +kernel

theorem unitsPerOne_cast_pos : (0 : ℚ) < unitsPerOne := by exact_mod_cast unitsPerOne_pos

theorem value_mul_unitsPerOne (a : Binary64) : a.value * unitsPerOne = a.signedUnits :=
  div_mul_cancel₀ _ (ne_of_gt unitsPerOne_cast_pos)

theorem value_div_value (a b : Binary64) : a.value / b.value = a.signedUnits / b.signedUnits :=
  div_div_div_cancel_right₀ (ne_of_gt unitsPerOne_cast_pos) _ _

theorem Positive.value_pos {a : Binary64} (h : a.Positive) : 0 < a.value :=
  div_pos (by exact_mod_cast h.signedUnits_pos) unitsPerOne_cast_pos

/-! ## Whole numbers beside a value -/

theorem floor_value {x : Binary64} (hx : x.isFinite = true) {n : Int} (hn : x.floor.Whole n) :
    n ≤ x.value ∧ x.value < n + 1 := by
  obtain ⟨m, hm, hle, hlt⟩ := floor_spec hx
  rw [← hn.unique hm] at hle hlt
  have hU := unitsPerOne_cast_pos
  rw [value, le_div_iff₀ hU, div_lt_iff₀ hU, add_mul, one_mul]
  exact ⟨by exact_mod_cast hle, by exact_mod_cast hlt⟩

theorem round_value {x : Binary64} (hx : x.isFinite = true) {n : Int} (hn : x.round.Whole n) :
    |x.value - n| ≤ 1 / 2 := by
  obtain ⟨m, hm, hup, hdown, -, -⟩ := round_spec hx
  rw [← hn.unique hm] at hup hdown
  have hU := unitsPerOne_cast_pos
  have hup' : (2 : ℚ) * (n * unitsPerOne) ≤ 2 * x.signedUnits + unitsPerOne := by exact_mod_cast hup
  have hdown' : (2 : ℚ) * x.signedUnits ≤ 2 * (n * unitsPerOne) + unitsPerOne := by
    exact_mod_cast hdown
  rw [← value_mul_unitsPerOne] at hup' hdown'
  rw [abs_le]
  constructor
  · refine le_of_mul_le_mul_right ?_ hU
    linarith
  · refine le_of_mul_le_mul_right ?_ hU
    linarith

/-! ## Errors of rounding -/

theorem roundUnits_error_value (num : Nat) {den : Nat} (hd : 0 < den) :
    |(roundUnits num den : ℚ) - num / den| ≤ max (num / den : ℚ) (2 ^ 52) / 2 ^ 53 := by
  have hden : (0 : ℚ) < den := by exact_mod_cast hd
  obtain ⟨hup, hdown⟩ := roundUnits_error num hd
  have hlarger : ((max num (2 ^ 52 * den) : Nat) : ℚ) = max (num / den : ℚ) (2 ^ 52) * den := by
    rw [max_mul_of_nonneg _ _ hden.le, div_mul_cancel₀ _ hden.ne']
    push_cast
    rfl
  have hup' : (2 : ℚ) ^ 53 * (roundUnits num den * den) ≤
      2 ^ 53 * num + max (num / den : ℚ) (2 ^ 52) * den := by
    rw [← hlarger]
    exact_mod_cast hup
  have hdown' : (2 : ℚ) ^ 53 * num ≤
      2 ^ 53 * (roundUnits num den * den) + max (num / den : ℚ) (2 ^ 52) * den := by
    rw [← hlarger]
    exact_mod_cast hdown
  have hnum : (num : ℚ) = num / den * den := (div_mul_cancel₀ _ hden.ne').symm
  generalize max (num / den : ℚ) (2 ^ 52) = e at hup' hdown' ⊢
  generalize (num : ℚ) / den = y at hnum ⊢
  rw [hnum] at hup' hdown'
  rw [abs_le]
  constructor
  · refine le_of_mul_le_mul_right ?_ hden
    linarith
  · refine le_of_mul_le_mul_right ?_ hden
    linarith

theorem roundUnits_error_whole_value (num : Nat) :
    |(roundUnits num 1 : ℚ) - num| ≤ num / 2 ^ 53 := by
  obtain ⟨hup, hdown⟩ := roundUnits_error_whole num
  have hup' : (2 : ℚ) ^ 53 * roundUnits num 1 ≤ 2 ^ 53 * num + num := by exact_mod_cast hup
  have hdown' : (2 : ℚ) ^ 53 * num ≤ 2 ^ 53 * roundUnits num 1 + num := by exact_mod_cast hdown
  rw [abs_le]
  constructor <;> linarith

theorem abs_roundSigned_sub {num : Int} {den : Nat}
    (hbelow : roundUnits num.natAbs den < unitsBound) :
    |(roundSigned num den : ℚ) - num / den| =
      |(roundUnits num.natAbs den : ℚ) - num.natAbs / den| := by
  obtain ⟨m, rfl | rfl⟩ := num.eq_nat_or_neg
  · rw [Int.natAbs_natCast] at hbelow ⊢
    rw [roundSigned_natCast, min_eq_left (by exact_mod_cast hbelow.le)]
    rfl
  · rw [Int.natAbs_neg, Int.natAbs_natCast] at hbelow ⊢
    rw [roundSigned_neg, roundSigned_natCast, min_eq_left (by exact_mod_cast hbelow.le)]
    push_cast
    rw [neg_div, neg_sub_neg, abs_sub_comm]

theorem roundSigned_error (num : Int) {den : Nat} (hd : 0 < den)
    (hbelow : roundUnits num.natAbs den < unitsBound) :
    |(roundSigned num den : ℚ) - num / den| ≤ max |(num : ℚ) / den| (2 ^ 52) / 2 ^ 53 := by
  rw [abs_roundSigned_sub hbelow, abs_div, Nat.abs_cast, ← Int.cast_abs, ← Nat.cast_natAbs]
  exact roundUnits_error_value _ hd

theorem roundSigned_error_whole (num : Int) (hbelow : roundUnits num.natAbs 1 < unitsBound) :
    |(roundSigned num 1 : ℚ) - num| ≤ |(num : ℚ)| / 2 ^ 53 := by
  have habs := abs_roundSigned_sub hbelow
  rw [Nat.cast_one, div_one, div_one] at habs
  rw [habs, ← Int.cast_abs, ← Nat.cast_natAbs]
  exact roundUnits_error_whole_value _

theorem roundUnits_lt_of_position {x : Binary64} (hx : x.isFinite = true) {num : Int} {den : Nat}
    (h : x.position = roundSigned num den) : roundUnits num.natAbs den < unitsBound := by
  have hlt := x.signedUnits_lt
  have hgt := x.neg_lt_signedUnits
  have habs := natAbs_roundSigned num den
  rw [← h, position_of_isFinite hx] at habs
  omega

/-! ## Errors of operations -/

theorem div_isFinite {t dt : Binary64} (ht : t.isFinite = true) (hd : dt.Positive)
    (hsmall : |t.value / dt.value| ≤ 2 ^ 45) : (t / dt).isFinite = true := by
  have hpos : (0 : ℚ) < dt.signedUnits := by exact_mod_cast hd.signedUnits_pos
  rw [value_div_value, abs_le, le_div_iff₀ hpos, div_le_iff₀ hpos] at hsmall
  have hlow : -2 ^ 45 * dt.signedUnits ≤ t.signedUnits := by exact_mod_cast hsmall.1
  have hhigh : t.signedUnits ≤ 2 ^ 45 * dt.signedUnits := by exact_mod_cast hsmall.2
  have hge := le_position_div ht hd hlow
  have hle := position_div_le ht hd hhigh
  rw [roundSigned_small (by decide)] at hge hle
  have hbound := two_pow_mul_unitsPerOne_lt (k := 45) (by decide)
  exact isFinite_of_position (div_isNaN (isNaN_of_isFinite ht) hd) (by omega)

/-- **The error of a quotient** that is not large: a part in `2^53` of it, or of one. -/
theorem div_error {t dt : Binary64} (ht : t.isFinite = true) (hd : dt.Positive)
    (hsmall : |t.value / dt.value| ≤ 2 ^ 45) :
    |(t / dt).value - t.value / dt.value| ≤ max |t.value / dt.value| 1 / 2 ^ 53 := by
  have hU := unitsPerOne_cast_pos
  have hfin := div_isFinite ht hd hsmall
  have hpos := hd.signedUnits_pos
  have hden : ((dt.signedUnits.toNat : Nat) : ℚ) = dt.signedUnits := by
    exact_mod_cast Int.toNat_of_nonneg hpos.le
  have hdiv := position_div ht hd
  have herr := roundSigned_error _ (show 0 < dt.signedUnits.toNat by omega)
    (roundUnits_lt_of_position hfin hdiv)
  rw [← hdiv, position_of_isFinite hfin, hden, ← value_mul_unitsPerOne] at herr
  have hratio : ((t.signedUnits * unitsPerOne : Int) : ℚ) / dt.signedUnits =
      t.value / dt.value * unitsPerOne := by
    rw [value_div_value, Int.cast_mul, Int.cast_natCast]
    exact mul_div_right_comm _ _ _
  rw [hratio, ← sub_mul, abs_mul, abs_mul, abs_of_pos hU] at herr
  -- The last place of a number below one is less than a part of one.
  have hone : (2 ^ 52 : ℚ) ≤ 1 * unitsPerOne := by
    rw [one_mul]
    exact_mod_cast two_pow_le_unitsPerOne
  refine le_of_mul_le_mul_right (herr.trans ?_) hU
  rw [div_mul_eq_mul_div, max_mul_of_nonneg _ _ hU.le]
  exact div_le_div_of_nonneg_right (max_le_max_left _ hone) (by norm_num)

/-- **The error of a product by a small whole number**: a part in `2^53` of it. -/
theorem mul_whole_error {k : Int} (hk : k.natAbs ≤ 2 ^ 53) {dt : Binary64}
    (hdt : dt.isFinite = true) (hfin : (ofInt k * dt).isFinite = true) :
    |(ofInt k * dt).value - k * dt.value| ≤ |k * dt.value| / 2 ^ 53 := by
  have hU := unitsPerOne_cast_pos
  have hwhole := ofInt_whole hk
  have hmul := (mul_spec hwhole.isFinite hdt).2
  rw [hwhole.signedUnits, Int.mul_right_comm, roundSigned_mul _ unitsPerOne_pos] at hmul
  have herr := roundSigned_error_whole _ (roundUnits_lt_of_position hfin hmul)
  rw [← hmul, position_of_isFinite hfin, Int.cast_mul, ← value_mul_unitsPerOne,
    ← value_mul_unitsPerOne, ← mul_assoc, ← sub_mul, abs_mul, abs_mul, abs_of_pos hU] at herr
  refine le_of_mul_le_mul_right (herr.trans ?_) hU
  rw [div_mul_eq_mul_div]

end Binary64
end PulseSequencer
