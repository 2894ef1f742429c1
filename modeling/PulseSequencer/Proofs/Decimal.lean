import PulseSequencer.Decimal.Shortest
import PulseSequencer.Proofs.Binary64.Order

/-!
Decimals and the doubles they read as.

A decimal reads as the double of its value, over whatever power of ten it is written
(`toBinary64_eq`): where the power of ten is not computed, the value is beyond the doubles or too
small for them.  So decimals of one value read alike (`toBinary64_congr`).  The shortest decimal of
a double is one that was tried or, failing that, the full expansion, so it reads as the double:
`toBinary64_shortest`.
-/

namespace PulseSequencer

namespace Binary64

theorem ofUnits_congr (s : Bool) {num den num' den' : Nat}
    (h : roundUnits num den = roundUnits num' den') : ofUnits s num den = ofUnits s num' den' := by
  simp only [ofUnits, h]

theorem ofUnits_eq_finite (s : Bool) {num den units : Nat} (h : roundUnits num den = units)
    (below : units < unitsBound) (fits : SignificandFits units) :
    ofUnits s num den = .finite s units below fits := by
  simp only [ofUnits, h, below, dif_pos]

theorem ofUnits_eq_infinite (s : Bool) {num den : Nat} (h : unitsBound ≤ roundUnits num den) :
    ofUnits s num den = .infinite s := by
  simp only [ofUnits, Nat.not_lt.2 h, dif_neg, not_false_eq_true]

theorem ofRatio_congr (s : Bool) {num den num' den' : Nat} (hd : 0 < den) (hd' : 0 < den')
    (h : num * den' = num' * den) : ofRatio s num den = ofRatio s num' den' := by
  refine ofUnits_congr s (roundUnits_congr hd hd' ?_)
  rw [Nat.mul_right_comm, h, Nat.mul_right_comm]

theorem roundUnits_eq_zero {num den : Nat} (h : 2 * num < den) : roundUnits num den = 0 := by
  have hexcess : excess num den = 0 := by
    simp [excess, Nat.div_eq_of_lt (show num < den by omega)]
  have hle := roundUnits_le_add num (show 0 < den by omega)
  rw [hexcess, Nat.pow_zero, Nat.mul_one] at hle
  have hlt : roundUnits num den * den < 1 * den := by omega
  exact Nat.lt_one_iff.1 (Nat.lt_of_mul_lt_mul_right hlt)

theorem le_roundUnits_of_le {num den : Nat} (hd : 0 < den) (h : unitsBound * den ≤ num) :
    unitsBound ≤ roundUnits num den := by
  have hfits : SignificandFits unitsBound := by decide +kernel
  calc unitsBound = roundUnits unitsBound 1 := (roundUnits_exact hfits).symm
    _ ≤ roundUnits num den := roundUnits_mono Nat.one_pos hd (by rwa [Nat.mul_one])

end Binary64

namespace Decimal

open Binary64 (unitsPerOne unitsBound roundUnits ofRatio SignificandFits)

/-! ## The double of a decimal -/

theorem two_mul_units_lt {d : Decimal} (h : d.exponent + d.digits.log2 + 1 < -400) {k : Nat}
    (hk : 0 ≤ d.exponent + k) :
    2 * (d.digits * 10 ^ (d.exponent + k).toNat * unitsPerOne) < 10 ^ k := by
  obtain ⟨c, hc, hunit⟩ : ∃ c, c = 400 ∧ 2 * unitsPerOne ≤ 10 ^ c := ⟨400, rfl, by decide +kernel⟩
  have hdigits : d.digits < 10 ^ (d.digits.log2 + 1) :=
    Nat.lt_of_lt_of_le Nat.lt_log2_self (Nat.pow_le_pow_left (by decide) _)
  calc 2 * (d.digits * 10 ^ (d.exponent + k).toNat * unitsPerOne)
      = 10 ^ (d.exponent + k).toNat * d.digits * (2 * unitsPerOne) := by
        rw [Nat.mul_comm d.digits, Nat.mul_left_comm]
    _ ≤ 10 ^ (d.exponent + k).toNat * d.digits * 10 ^ c := Nat.mul_le_mul_left _ hunit
    _ < 10 ^ (d.exponent + k).toNat * 10 ^ (d.digits.log2 + 1) * 10 ^ c := by
        refine Nat.mul_lt_mul_of_pos_right ?_ (Nat.pow_pos (by decide))
        exact Nat.mul_lt_mul_of_pos_left hdigits (Nat.pow_pos (by decide))
    _ = 10 ^ ((d.exponent + k).toNat + (d.digits.log2 + 1) + c) := by
        rw [← Nat.pow_add, ← Nat.pow_add]
    _ ≤ 10 ^ k := Nat.pow_le_pow_right (by decide) (by omega)

theorem unitsBound_mul_le {d : Decimal} (h0 : d.digits ≠ 0) (h : 400 < d.exponent) (k : Nat) :
    unitsBound * 10 ^ k ≤ d.digits * 10 ^ (d.exponent + k).toNat * unitsPerOne := by
  obtain ⟨c, hc, hbound⟩ : ∃ c, c = 400 ∧ unitsBound ≤ 10 ^ c * unitsPerOne :=
    ⟨400, rfl, by decide +kernel⟩
  calc unitsBound * 10 ^ k ≤ 10 ^ c * unitsPerOne * 10 ^ k := Nat.mul_le_mul_right _ hbound
    _ = 10 ^ (c + k) * unitsPerOne := by rw [Nat.mul_right_comm, ← Nat.pow_add]
    _ ≤ d.digits * 10 ^ (d.exponent + k).toNat * unitsPerOne := by
        refine Nat.mul_le_mul_right _ (Nat.le_trans ?_ (Nat.le_mul_of_pos_left _ (by omega)))
        exact Nat.pow_le_pow_right (by decide) (by omega)

/-- **A decimal reads as the double of its value**, written over any power of ten. -/
theorem toBinary64_eq (s : Bool) {d : Decimal} {k : Nat} (hk : 0 ≤ d.exponent + k) :
    d.toBinary64 s = ofRatio s (d.digits * 10 ^ (d.exponent + k).toNat) (10 ^ k) := by
  have hpow : ∀ n : Nat, 0 < 10 ^ n := fun n => Nat.pow_pos (by decide)
  unfold toBinary64
  by_cases hlow : d.digits = 0 ∨ d.exponent + d.digits.log2 + 1 < -400
  · rw [if_pos hlow]
    refine Binary64.ofUnits_congr s ?_
    rcases hlow with h0 | htiny
    · simp [h0]
    · rw [Binary64.roundUnits_zero, Binary64.roundUnits_eq_zero (two_mul_units_lt htiny hk)]
  · rw [if_neg hlow]
    obtain ⟨h0, -⟩ := not_or.1 hlow
    by_cases hhigh : 400 < d.exponent
    · rw [if_pos hhigh]
      exact (Binary64.ofUnits_eq_infinite s
        (Binary64.le_roundUnits_of_le (hpow k) (unitsBound_mul_le h0 hhigh k))).symm
    · rw [if_neg hhigh]
      by_cases hneg : 0 ≤ d.exponent
      · rw [if_pos hneg]
        refine Binary64.ofRatio_congr s Nat.one_pos (hpow k) ?_
        rw [Nat.mul_assoc, ← Nat.pow_add, Nat.mul_one]
        congr 2
        omega
      · rw [if_neg hneg]
        refine Binary64.ofRatio_congr s (hpow _) (hpow k) ?_
        rw [Nat.mul_assoc, ← Nat.pow_add]
        congr 2
        omega

/-- **Decimals of the same value read alike.** -/
theorem toBinary64_congr (s : Bool) {d d' : Decimal} {k : Nat} (hk : 0 ≤ d.exponent + k)
    (hk' : 0 ≤ d'.exponent + k)
    (h : d.digits * 10 ^ (d.exponent + k).toNat = d'.digits * 10 ^ (d'.exponent + k).toNat) :
    d.toBinary64 s = d'.toBinary64 s := by
  rw [toBinary64_eq s hk, toBinary64_eq s hk', h]

theorem toBinary64_dropZeros (s : Bool) (limit : Nat) (d : Decimal) :
    (dropZeros limit d).toBinary64 s = d.toBinary64 s := by
  induction limit generalizing d with
  | zero => rfl
  | succ limit ih =>
    rw [dropZeros]
    split
    · rename_i hz
      rw [ih]
      refine toBinary64_congr s (k := (-d.exponent).toNat) (by dsimp only; omega) (by omega) ?_
      have hdigits : d.digits / 10 * 10 = d.digits :=
        Nat.div_mul_cancel (Nat.dvd_of_mod_eq_zero hz.2)
      have hpow : (d.exponent + 1 + ((-d.exponent).toNat : Nat)).toNat =
          (d.exponent + ((-d.exponent).toNat : Nat)).toNat + 1 := by omega
      dsimp only
      rw [hpow, Nat.pow_succ, Nat.mul_comm (10 ^ _) 10, ← Nat.mul_assoc, hdigits]
    · rfl

/-! ## The shortest decimal -/

section
variable {units : Nat} (h0 : 0 < units) (below : units < unitsBound) (fits : SignificandFits units)
include h0

theorem toBinary64_of_roundsTo {d : Decimal} (h : roundsTo units d = true) (s : Bool) :
    d.toBinary64 s = .finite s units below fits := by
  have hk : 0 ≤ d.exponent + ((-d.exponent).toNat : Nat) := by omega
  unfold roundsTo at h
  rw [toBinary64_eq false hk, beq_iff_eq, ofRatio, Binary64.ofUnits] at h
  rw [toBinary64_eq s hk]
  refine Binary64.ofUnits_eq_finite s ?_ below fits
  split at h
  · simp only [Binary64.signedUnits] at h
    omega
  · simp only [Binary64.signedUnits] at h
    omega

omit h0 in
theorem roundsTo_of_onGrid? {tie : Tie} {n : Nat} {d : Decimal} (h : onGrid? tie units n = some d) :
    roundsTo units d = true := by
  unfold onGrid? at h
  dsimp only at h
  split at h
  · rename_i hbelow habove
    obtain rfl := Option.some.inj h
    exact iteInduction (motive := (roundsTo units · = true)) (fun _ => hbelow) (fun _ => habove)
  · obtain rfl := Option.some.inj h
    assumption
  · obtain rfl := Option.some.inj h
    assumption
  · cases h

omit h0 in
theorem toBinary64_exact (s : Bool) : (exact units).toBinary64 s = .finite s units below fits := by
  obtain ⟨c, hexact, hten⟩ : ∃ c : Nat, exact units = ⟨units * 5 ^ c, -c⟩ ∧
      5 ^ c * unitsPerOne = 10 ^ c := ⟨1074, rfl, by decide +kernel⟩
  rw [hexact, toBinary64_eq s (k := c) (by dsimp only; omega)]
  refine Binary64.ofUnits_eq_finite s ?_ below fits
  calc roundUnits (units * 5 ^ c * 10 ^ (-(c : Int) + c).toNat * unitsPerOne) (10 ^ c)
      = roundUnits units 1 := by
        refine Binary64.roundUnits_congr (Nat.pow_pos (by decide)) Nat.one_pos ?_
        rw [Int.add_left_neg, Int.toNat_zero, Nat.pow_zero, Nat.mul_one, Nat.mul_one, Nat.mul_assoc,
          hten]
    _ = units := Binary64.roundUnits_exact fits

/-- **The shortest decimal of a double reads as the double.** -/
theorem toBinary64_shortest (tie : Tie) (s : Bool) :
    (shortest tie units).toBinary64 s = .finite s units below fits := by
  rw [shortest, toBinary64_dropZeros]
  cases hf : (List.range' 1 17).findSome? (onGrid? tie units) with
  | none => exact toBinary64_exact below fits s
  | some d =>
    obtain ⟨n, -, hn⟩ := List.exists_of_findSome?_eq_some hf
    exact toBinary64_of_roundsTo h0 below fits (roundsTo_of_onGrid? hn) s

include below fits in
theorem digits_shortest_pos (tie : Tie) : 0 < (shortest tie units).digits := by
  refine Nat.pos_of_ne_zero fun hzero => ?_
  have h := toBinary64_shortest h0 below fits tie false
  rw [toBinary64, if_pos (.inl hzero), Binary64.ofUnits_eq_finite false (Binary64.roundUnits_zero 1)
    Binary64.unitsBound_pos (by decide)] at h
  cases h
  exact Nat.lt_irrefl 0 h0

end

end Decimal
end PulseSequencer
