import PulseSequencer.Proofs.Binary64.Order

/-!
Whole doubles.

The whole numbers next to a double are doubles themselves: a double from `2^52` on is whole, and
below that every whole number fits into 53 bits.  So `floor` and `round` lose nothing, and what
`toInt64Range` makes of their results is the whole number itself, cut to the range.
-/

namespace PulseSequencer
namespace Binary64

/-- Which power of two one is does not matter here. -/
theorem exists_unitsPerOne_eq : ∃ e, unitsPerOne = 2 ^ e := ⟨1074, by unfold unitsPerOne; rfl⟩

theorem exists_unitsBound_eq : ∃ b : Nat, 2 ^ 64 ≤ b ∧ unitsBound = b * unitsPerOne :=
  ⟨2 ^ 1024, by decide +kernel, by decide +kernel⟩

theorem two_pow_mul_unitsPerOne_lt {k : Nat} (h : k < 64) : 2 ^ k * unitsPerOne < unitsBound := by
  obtain ⟨b, hb, hbound⟩ := exists_unitsBound_eq
  rw [hbound]
  refine Nat.mul_lt_mul_of_pos_right (Nat.lt_of_lt_of_le ?_ hb) unitsPerOne_pos
  exact Nat.pow_lt_pow_right (by decide) h

theorem unitsPerOne_dvd {units : Nat} (fits : SignificandFits units)
    (h : 2 ^ 52 * unitsPerOne ≤ units) : unitsPerOne ∣ units := by
  have hU := unitsPerOne_pos
  have h0 : units ≠ 0 := by omega
  obtain ⟨e, he⟩ := exists_unitsPerOne_eq
  have hlog : 52 + e ≤ units.log2 := by
    rw [he, ← Nat.pow_add] at h
    exact (Nat.le_log2 h0).2 h
  have hdvd : unitsPerOne ∣ 2 ^ (units.log2 - 52) := by
    rw [he]
    exact Nat.pow_dvd_pow 2 (by omega)
  exact Nat.dvd_trans hdvd (Nat.dvd_of_mod_eq_zero fits)

theorem fits_small {m : Nat} (hm : m ≤ 2 ^ 53) :
    m * unitsPerOne < unitsBound ∧ SignificandFits (m * unitsPerOne) := by
  refine ⟨Nat.lt_of_le_of_lt (Nat.mul_le_mul_right _ hm)
    (two_pow_mul_unitsPerOne_lt (by decide)), ?_⟩
  obtain ⟨e, he⟩ := exists_unitsPerOne_eq
  rw [he]
  exact fits_mul_two_pow e hm

/-- **A whole number less than one away from a double is a double.** -/
theorem fits_whole {units m : Nat} (below : units < unitsBound) (fits : SignificandFits units)
    (hlo : m * unitsPerOne < units + unitsPerOne) (hhi : units < m * unitsPerOne + unitsPerOne) :
    m * unitsPerOne < unitsBound ∧ SignificandFits (m * unitsPerOne) := by
  have hU := unitsPerOne_pos
  rcases Nat.lt_or_ge units (2 ^ 52 * unitsPerOne) with hsmall | hbig
  · have hm : m ≤ 2 ^ 52 := by
      refine Nat.le_of_lt_succ (Nat.lt_of_mul_lt_mul_right (a := unitsPerOne) ?_)
      rw [Nat.succ_mul]
      omega
    exact fits_small (Nat.le_trans hm (by decide))
  · obtain ⟨q, rfl⟩ := unitsPerOne_dvd fits hbig
    rw [Nat.mul_comm unitsPerOne q] at *
    have hmq : m = q := by
      rcases Nat.lt_trichotomy m q with h | h | h
      · have := Nat.mul_le_mul_right unitsPerOne h
        rw [Nat.succ_mul] at this
        omega
      · exact h
      · have := Nat.mul_le_mul_right unitsPerOne h
        rw [Nat.succ_mul] at this
        omega
    subst hmq
    exact ⟨below, fits⟩

/-- The finite double `x` is the whole number `n`. -/
structure Whole (x : Binary64) (n : Int) : Prop where
  isFinite : x.isFinite = true
  signedUnits : x.signedUnits = n * unitsPerOne

theorem ofUnits_whole (s : Bool) {m : Nat}
    (h : m * unitsPerOne < unitsBound ∧ SignificandFits (m * unitsPerOne)) :
    (ofUnits s (m * unitsPerOne) 1).Whole (signed s m) := by
  rw [ofUnits_exact s h.1 h.2]
  refine ⟨rfl, ?_⟩
  cases s with
  | false => exact Int.natCast_mul m unitsPerOne
  | true =>
    rw [signed_true, Int.neg_mul, ← Int.natCast_mul]
    rfl

theorem ofInt_whole {n : Int} (h : n.natAbs ≤ 2 ^ 53) : (ofInt n).Whole n := by
  have hwhole := ofUnits_whole (decide (n < 0)) (fits_small h)
  have hn : signed (decide (n < 0)) n.natAbs = n := by
    unfold signed
    simp only [decide_eq_true_eq]
    split <;> omega
  rw [hn] at hwhole
  exact hwhole

theorem roundSigned_small {n : Int} (h : n.natAbs ≤ 2 ^ 53) :
    roundSigned (n * unitsPerOne) 1 = n * unitsPerOne := by
  have habs : (n * unitsPerOne).natAbs = n.natAbs * unitsPerOne := by
    rw [Int.natAbs_mul, Int.natAbs_natCast]
  obtain ⟨below, fits⟩ := fits_small h
  exact roundSigned_exact (habs ▸ fits) (habs ▸ below)

/-- **The largest whole number at or below a double.** -/
theorem floor_spec {x : Binary64} (hx : x.isFinite = true) :
    ∃ n, x.floor.Whole n ∧ n * unitsPerOne ≤ x.signedUnits ∧
      x.signedUnits < n * unitsPerOne + unitsPerOne := by
  have hU := unitsPerOne_pos
  cases x with
  | nan | infinite s => simp [isFinite] at hx
  | finite s units below fits =>
    cases s
    · have hdm := Nat.div_add_mod' units unitsPerOne
      have hr := Nat.mod_lt units hU
      refine ⟨_, ofUnits_whole false (fits_whole below fits (by omega) (by omega)), ?_⟩
      simp only [signed_false, signedUnits]
      exact ⟨by exact_mod_cast by omega, by exact_mod_cast by omega⟩
    · have hdm := Nat.div_add_mod' (units + unitsPerOne - 1) unitsPerOne
      have hr := Nat.mod_lt (units + unitsPerOne - 1) hU
      refine ⟨_, ofUnits_whole true (fits_whole below fits (by omega) (by omega)), ?_⟩
      simp only [signed_true, signedUnits, Int.neg_mul, ← Int.natCast_mul]
      omega

/-- **The whole number nearest to a double**; a half goes away from zero. -/
theorem round_spec {x : Binary64} (hx : x.isFinite = true) :
    ∃ n, x.round.Whole n ∧
      2 * (n * unitsPerOne) ≤ 2 * x.signedUnits + unitsPerOne ∧
      2 * x.signedUnits ≤ 2 * (n * unitsPerOne) + unitsPerOne ∧
      (0 ≤ x.signedUnits → 2 * x.signedUnits < 2 * (n * unitsPerOne) + unitsPerOne) ∧
      (x.signedUnits ≤ 0 → 2 * (n * unitsPerOne) < 2 * x.signedUnits + unitsPerOne) := by
  have hU := unitsPerOne_pos
  cases x with
  | nan | infinite s => simp [isFinite] at hx
  | finite s units below fits =>
    have hdm := Nat.div_add_mod' (2 * units + unitsPerOne) (2 * unitsPerOne)
    have hr := Nat.mod_lt (2 * units + unitsPerOne) (Nat.mul_pos (by decide : 0 < 2) hU)
    rw [Nat.mul_left_comm] at hdm
    have h0 : units = 0 → (2 * units + unitsPerOne) / (2 * unitsPerOne) * unitsPerOne = 0 := by
      intro h0
      rw [Nat.div_eq_of_lt (by omega), Nat.zero_mul]
    refine ⟨_, ofUnits_whole s (fits_whole below fits (by omega) (by omega)), ?_⟩
    generalize (2 * units + unitsPerOne) / (2 * unitsPerOne) = m at *
    generalize (2 * units + unitsPerOne) % (2 * unitsPerOne) = r at *
    cases s
    · simp only [signed_false, signedUnits, ← Int.natCast_mul]
      omega
    · simp only [signed_true, signedUnits, Int.neg_mul, ← Int.natCast_mul]
      omega

theorem Whole.unique {x : Binary64} {m n : Int} (hm : x.Whole m) (hn : x.Whole n) : m = n := by
  have hU := unitsPerOne_pos
  exact Int.eq_of_mul_eq_mul_right (by omega) (hm.signedUnits.symm.trans hn.signedUnits)

theorem Whole.abs {x y : Binary64} {n : Int} (hx : x.Whole n) (hy : y.Whole n) : x.abs = y.abs := by
  have hxy := hx.signedUnits.trans hy.signedUnits.symm
  cases x with
  | nan | infinite s => have := hx.isFinite; simp [Binary64.isFinite] at this
  | finite s units below fits =>
    cases y with
    | nan | infinite s => have := hy.isFinite; simp [Binary64.isFinite] at this
    | finite t units' below' fits' =>
      have : units = units' := by
        cases s <;> cases t <;> simp only [Binary64.signedUnits] at hxy <;> omega
      subst this
      rfl

theorem Whole.magnitude {x : Binary64} {n : Int} (h : x.Whole n) : x.abs.Whole n.natAbs := by
  have hs := congrArg Int.natAbs h.signedUnits
  rw [Int.natAbs_mul, Int.natAbs_natCast] at hs
  cases x with
  | nan | infinite s => have := h.isFinite; simp [Binary64.isFinite] at this
  | finite s units below fits =>
    refine ⟨rfl, ?_⟩
    have hunits : (Binary64.finite s units below fits).signedUnits.natAbs = units := by
      cases s <;> simp only [Binary64.signedUnits] <;> omega
    rw [hunits] at hs
    show (units : Int) = _
    exact_mod_cast hs

theorem Whole.greater {x y : Binary64} {m n : Int} (hx : x.Whole m) (hy : y.Whole n) :
    (x.greater y).Whole (max m n) := by
  refine ⟨greater_isFinite hx.isFinite hy.isFinite, ?_⟩
  rw [signedUnits_greater hx.isFinite hy.isFinite, hx.signedUnits, hy.signedUnits]
  rcases Int.le_total m n with h | h
  · rw [Int.max_eq_right h, Int.max_eq_right (Int.mul_le_mul_of_nonneg_right h (by omega))]
  · rw [Int.max_eq_left h, Int.max_eq_left (Int.mul_le_mul_of_nonneg_right h (by omega))]

theorem one_whole : one.Whole 1 := ofInt_whole (n := 1) (by decide)

/-! ## The range of 64-bit signed integers -/

/-- A whole number cut to the range. -/
def clamp64 (n : Int) : Int := max (-(2 ^ 63)) (min n (2 ^ 63 - 1))

theorem clamp64_mono {m n : Int} (h : m ≤ n) : clamp64 m ≤ clamp64 n := by
  unfold clamp64
  omega

theorem Whole.toInt64Range {x : Binary64} {n : Int} (h : x.Whole n) :
    x.toInt64Range = clamp64 n := by
  have hU := unitsPerOne_pos
  have hU' : (unitsPerOne : Int) ≠ 0 := by omega
  have hs := h.signedUnits
  cases x with
  | nan | infinite s => have := h.isFinite; simp [Binary64.isFinite] at this
  | finite s units below fits =>
    cases s
    · simp only [Binary64.signedUnits] at hs
      simp only [Binary64.toInt64Range, clamp64, hs, Int.mul_ediv_cancel _ hU']
      have : 0 ≤ n := by
        refine Int.le_of_mul_le_mul_right (a := unitsPerOne) ?_ (by omega)
        omega
      simp
      omega
    · simp only [Binary64.signedUnits] at hs
      have hs' : (units : Int) = -n * unitsPerOne := by rw [Int.neg_mul]; omega
      simp only [Binary64.toInt64Range, clamp64, hs', Int.mul_ediv_cancel _ hU']
      have : n ≤ 0 := by
        refine Int.le_of_mul_le_mul_right (a := unitsPerOne) ?_ (by omega)
        omega
      simp
      omega

end Binary64
end PulseSequencer
