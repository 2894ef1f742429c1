import PulseSequencer.Binary64.Rounding

/-!
What `roundUnits` computes.

`roundUnits num den` is the nearest number of units with at most 53 significant bits to the exact
ratio `num / den`.  Ratios are compared by cross products, so no rational arithmetic is needed.

* `roundUnits_mono`: a larger ratio never rounds to fewer units, so rounding depends on the value of
  the ratio alone.
* `roundUnits_exact`: a number of units that fits is its own rounding.
* `le_roundUnits_add` and `roundUnits_le_add`: rounding moves a ratio by at most half of its last
  place, which is a part in `2^53` of it or half a unit (`roundUnits_error`).
-/

namespace PulseSequencer
namespace Binary64

/-! ## The nearest whole number -/

theorem nearest_cases (num den : Nat) :
    (nearest num den = num / den ∧ 2 * (num % den) ≤ den) ∨
      (nearest num den = num / den + 1 ∧ den ≤ 2 * (num % den)) := by
  unfold nearest
  dsimp only
  split
  · exact .inl ⟨rfl, by omega⟩
  · split
    · exact .inr ⟨rfl, by omega⟩
    · rcases Nat.mod_two_eq_zero_or_one (num / den) with h | h
      · exact .inl ⟨by omega, by omega⟩
      · exact .inr ⟨by omega, by omega⟩

theorem le_nearest (num den : Nat) : num / den ≤ nearest num den := by
  rcases nearest_cases num den with ⟨h, -⟩ | ⟨h, -⟩ <;> omega

theorem nearest_mul (k : Nat) {den : Nat} (hd : 0 < den) : nearest (k * den) den = k := by
  unfold nearest
  simp [Nat.mul_div_cancel _ hd, hd]

theorem nearest_mul_le (num : Nat) {den : Nat} (hd : 0 < den) :
    2 * (nearest num den * den) ≤ 2 * num + den := by
  have hdm := Nat.div_add_mod num den
  have hr := Nat.mod_lt num hd
  rw [Nat.mul_comm] at hdm
  rcases nearest_cases num den with ⟨he, h⟩ | ⟨he, h⟩ <;> rw [he]
  · omega
  · rw [Nat.succ_mul (num / den)]; omega

theorem le_nearest_mul (num : Nat) {den : Nat} (hd : 0 < den) :
    2 * num ≤ 2 * (nearest num den * den) + den := by
  have hdm := Nat.div_add_mod num den
  have hr := Nat.mod_lt num hd
  rw [Nat.mul_comm] at hdm
  rcases nearest_cases num den with ⟨he, h⟩ | ⟨he, h⟩ <;> rw [he]
  · omega
  · rw [Nat.succ_mul (num / den)]; omega

theorem div_mono {num den num' den' : Nat} (hd : 0 < den) (hd' : 0 < den')
    (h : num * den' ≤ num' * den) : num / den ≤ num' / den' := by
  rw [Nat.le_div_iff_mul_le hd']
  refine Nat.le_of_mul_le_mul_right ?_ hd
  calc num / den * den' * den = num / den * den * den' := Nat.mul_right_comm _ _ _
    _ ≤ num * den' := Nat.mul_le_mul_right _ (Nat.div_mul_le_self _ _)
    _ ≤ num' * den := h

theorem rest_mono {num den num' den' : Nat} (h : num * den' ≤ num' * den)
    (hw : num / den = num' / den') : num % den * den' ≤ num' % den' * den := by
  have e := Nat.div_add_mod num den
  have e' := Nat.div_add_mod num' den'
  rw [← hw] at e'
  have hx : num * den' = den * (num / den) * den' + num % den * den' := by
    rw [← Nat.add_mul, e]
  have hy : num' * den = den * (num / den) * den' + num' % den' * den := by
    have : den * (num / den) * den' = den' * (num / den) * den := by
      rw [Nat.mul_right_comm, Nat.mul_comm den, ← Nat.mul_right_comm]
    rw [this, ← Nat.add_mul, e']
  omega

theorem nearest_mono {num den num' den' : Nat} (hd : 0 < den) (hd' : 0 < den')
    (h : num * den' ≤ num' * den) : nearest num den ≤ nearest num' den' := by
  have hle := div_mono hd hd' h
  rcases Nat.lt_or_ge (num / den) (num' / den') with hlt | hge
  · exact Nat.le_trans (nearest_le _ _) (Nat.le_trans hlt (le_nearest _ _))
  have hw : num / den = num' / den' := by omega
  have hrest := rest_mono h hw
  -- Half a part or more of the smaller ratio is as much of the larger one.
  have half : den ≤ 2 * (num % den) → den' ≤ 2 * (num' % den') := fun hh => by
    refine Nat.le_of_mul_le_mul_right ?_ hd
    have := Nat.mul_le_mul_right den' hh
    rw [Nat.mul_assoc] at this
    rw [Nat.mul_comm den', Nat.mul_assoc]
    omega
  have more : den < 2 * (num % den) → den' < 2 * (num' % den') := fun hh => by
    refine Nat.lt_of_mul_lt_mul_right (a := den) ?_
    have := Nat.mul_lt_mul_of_pos_right hh hd'
    rw [Nat.mul_assoc] at this
    rw [Nat.mul_comm den', Nat.mul_assoc]
    omega
  unfold nearest
  dsimp only
  rw [← hw]
  split
  · split
    · omega
    · split <;> omega
  · split
    · have := more (by assumption)
      split
      · omega
      · omega
    · have := half (by omega)
      split
      · omega
      · split <;> omega

/-! ## Keeping 53 bits -/

theorem excess_mono {num den num' den' : Nat} (hd : 0 < den) (hd' : 0 < den')
    (h : num * den' ≤ num' * den) : excess num den ≤ excess num' den' := by
  have hle := div_mono hd hd' h
  unfold excess
  have hlog : (num / den).log2 ≤ (num' / den').log2 := by
    by_cases h0 : num / den = 0
    · simp [h0]
    · have h0' := Nat.lt_of_lt_of_le (Nat.pos_of_ne_zero h0) hle
      exact (Nat.le_log2 (Nat.ne_of_gt h0')).2 (Nat.le_trans (Nat.log2_self_le h0) hle)
  omega

theorem le_whole {num den : Nat} (he : 0 < excess num den) :
    2 ^ 52 ≤ num / (den * 2 ^ excess num den) := by
  rw [← Nat.div_div_eq_div_mul, Nat.le_div_iff_mul_le (Nat.two_pow_pos _), ← Nat.pow_add]
  have h0 : num / den ≠ 0 := by
    intro h0
    simp [excess, h0] at he
  refine Nat.le_trans (Nat.pow_le_pow_right (by decide) ?_) (Nat.log2_self_le h0)
  unfold excess at he ⊢
  omega

theorem roundUnits_le_two_pow (num den : Nat) : roundUnits num den ≤ 2 ^ 53 * 2 ^ excess num den :=
  Nat.mul_le_mul_right _ (Nat.le_trans (nearest_le _ _) (whole_lt num den))

theorem two_pow_le_roundUnits {num den : Nat} (he : 0 < excess num den) :
    2 ^ 52 * 2 ^ excess num den ≤ roundUnits num den :=
  Nat.mul_le_mul_right _ (Nat.le_trans (le_whole he) (le_nearest _ _))

/-- **Monotonicity.** A larger ratio never rounds to fewer units. -/
theorem roundUnits_mono {num den num' den' : Nat} (hd : 0 < den) (hd' : 0 < den')
    (h : num * den' ≤ num' * den) : roundUnits num den ≤ roundUnits num' den' := by
  have he := excess_mono hd hd' h
  rcases Nat.lt_or_ge (excess num den) (excess num' den') with hlt | hge
  · calc roundUnits num den ≤ 2 ^ 53 * 2 ^ excess num den := roundUnits_le_two_pow _ _
      _ ≤ 2 ^ 52 * 2 ^ excess num' den' := by
        rw [← Nat.pow_add, ← Nat.pow_add]
        exact Nat.pow_le_pow_right (by decide) (by omega)
      _ ≤ roundUnits num' den' := two_pow_le_roundUnits (by omega)
  · have heq : excess num den = excess num' den' := by omega
    unfold roundUnits
    dsimp only
    rw [← heq]
    have hp := Nat.two_pow_pos (excess num den)
    refine Nat.mul_le_mul_right _ (nearest_mono (Nat.mul_pos hd hp) (Nat.mul_pos hd' hp) ?_)
    rw [← Nat.mul_assoc, ← Nat.mul_assoc]
    exact Nat.mul_le_mul_right _ h

theorem roundUnits_mono_whole {m n : Nat} (h : m ≤ n) : roundUnits m 1 ≤ roundUnits n 1 :=
  roundUnits_mono Nat.one_pos Nat.one_pos (Nat.mul_le_mul_right 1 h)

theorem roundUnits_congr {num den num' den' : Nat} (hd : 0 < den) (hd' : 0 < den')
    (h : num * den' = num' * den) : roundUnits num den = roundUnits num' den' :=
  Nat.le_antisymm (roundUnits_mono hd hd' (Nat.le_of_eq h))
    (roundUnits_mono hd' hd (Nat.le_of_eq h.symm))

/-- **A number of units that fits is its own rounding.** -/
theorem roundUnits_exact {units : Nat} (h : SignificandFits units) :
    roundUnits units 1 = units := by
  obtain ⟨k, hk⟩ := Nat.dvd_of_mod_eq_zero h
  have he : excess units 1 = units.log2 - 52 := by simp [excess]
  unfold roundUnits
  dsimp only
  rw [he, Nat.one_mul]
  conv => lhs; arg 1; arg 1; rw [hk, Nat.mul_comm]
  rw [nearest_mul k (Nat.two_pow_pos _), Nat.mul_comm]
  exact hk.symm

/-- **Half of the last place**, upwards. -/
theorem roundUnits_le_add (num : Nat) {den : Nat} (hd : 0 < den) :
    2 * (roundUnits num den * den) ≤ 2 * num + den * 2 ^ excess num den := by
  have h := nearest_mul_le num (Nat.mul_pos hd (Nat.two_pow_pos (excess num den)))
  unfold roundUnits
  dsimp only
  rwa [Nat.mul_assoc, Nat.mul_comm _ den]

theorem le_roundUnits_add (num : Nat) {den : Nat} (hd : 0 < den) :
    2 * num ≤ 2 * (roundUnits num den * den) + den * 2 ^ excess num den := by
  have h := le_nearest_mul num (Nat.mul_pos hd (Nat.two_pow_pos (excess num den)))
  unfold roundUnits
  dsimp only
  rwa [Nat.mul_assoc, Nat.mul_comm _ den]

theorem last_place_le (num : Nat) {den : Nat} (hd : 0 < den) :
    2 ^ 52 * (den * 2 ^ excess num den) ≤ max num (2 ^ 52 * den) := by
  rcases Nat.eq_zero_or_pos (excess num den) with h0 | hpos
  · rw [h0, Nat.pow_zero, Nat.mul_one]
    exact Nat.le_max_right _ _
  · have hplace := Nat.mul_pos hd (Nat.two_pow_pos (excess num den))
    have hwhole := (Nat.le_div_iff_mul_le hplace).1 (le_whole hpos)
    exact Nat.le_trans hwhole (Nat.le_max_left _ _)

/-- **The error of rounding**: half a unit, or a part in `2^53` of the ratio. -/
theorem roundUnits_error (num : Nat) {den : Nat} (hd : 0 < den) :
    2 ^ 53 * (roundUnits num den * den) ≤ 2 ^ 53 * num + max num (2 ^ 52 * den) ∧
      2 ^ 53 * num ≤ 2 ^ 53 * (roundUnits num den * den) + max num (2 ^ 52 * den) := by
  have hplace := last_place_le num hd
  have hup := roundUnits_le_add num hd
  have hdown := le_roundUnits_add num hd
  omega

theorem roundUnits_error_whole (num : Nat) :
    2 ^ 53 * roundUnits num 1 ≤ 2 ^ 53 * num + num ∧
      2 ^ 53 * num ≤ 2 ^ 53 * roundUnits num 1 + num := by
  have := roundUnits_error num Nat.one_pos
  omega

theorem excess_le {num den e : Nat} (hd : 0 < den) (h : num < 2 ^ (53 + e) * den) :
    excess num den ≤ e := by
  have hlt : num / den < 2 ^ (53 + e) := (Nat.div_lt_iff_lt_mul hd).2 h
  unfold excess
  by_cases h0 : num / den = 0
  · simp [h0]
  · have := (Nat.log2_lt h0).2 hlt
    omega

/-- **Below the middle between two neighbours** `m` and `m + 1` at the place of `2^e` units, a
ratio does not round to the upper one. -/
theorem roundUnits_le_of_lt_middle {num den m e : Nat} (hd : 0 < den) (hm : 2 ^ 52 ≤ m)
    (hm' : m < 2 ^ 53) (h : 2 * num < (2 * m + 1) * 2 ^ e * den) :
    roundUnits num den ≤ m * 2 ^ e := by
  have hexcess : excess num den ≤ e := by
    refine excess_le hd (Nat.lt_of_mul_lt_mul_left (a := 2) (Nat.lt_of_lt_of_le h ?_))
    calc (2 * m + 1) * 2 ^ e * den ≤ 2 ^ 54 * 2 ^ e * den :=
          Nat.mul_le_mul_right _ (Nat.mul_le_mul_right _ (by omega))
      _ = 2 * (2 ^ (53 + e) * den) := by
          rw [Nat.pow_add, ← Nat.mul_assoc, ← Nat.mul_assoc, show 2 * 2 ^ 53 = 2 ^ 54 from rfl]
  rcases Nat.lt_or_eq_of_le hexcess with hlt | heq
  · calc roundUnits num den ≤ 2 ^ 53 * 2 ^ excess num den := roundUnits_le_two_pow _ _
      _ ≤ 2 ^ 52 * 2 ^ e := by
        rw [← Nat.pow_add, ← Nat.pow_add]
        exact Nat.pow_le_pow_right (by decide) (by omega)
      _ ≤ m * 2 ^ e := Nat.mul_le_mul_right _ hm
  · unfold roundUnits
    dsimp only
    rw [heq]
    have hpart : 0 < den * 2 ^ e := Nat.mul_pos hd (Nat.two_pow_pos e)
    have hnear := nearest_mul_le num hpart
    refine Nat.mul_le_mul_right _ (Nat.le_of_lt_succ ?_)
    refine Nat.lt_of_mul_lt_mul_right (a := den * 2 ^ e) ?_
    rw [Nat.mul_assoc, Nat.mul_comm (2 ^ e), Nat.add_mul, Nat.mul_assoc] at h
    rw [Nat.succ_mul]
    omega

@[simp] theorem roundUnits_zero (den : Nat) : roundUnits 0 den = 0 := by
  have h : nearest 0 (den * 2 ^ excess 0 den) ≤ 0 := by
    unfold nearest
    simp
  unfold roundUnits
  dsimp only
  rw [Nat.le_zero.1 h, Nat.zero_mul]

end Binary64
end PulseSequencer
