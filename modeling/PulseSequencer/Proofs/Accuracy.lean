import PulseSequencer.Proofs.Binary64.Value
import PulseSequencer.Proofs.Quantize

/-!
How near the tick of a time is to the time.

A quotient counts as its nearest whole number inside a window that grows with that number: between
a part in `2^30` of it and hardly more than a part in `10^9` (`snaps_of_near`, `Snaps.near`).  The
quotient itself is off by a part in `2^53`, far less than the window.  So a time that is a multiple
of the clock period up to a few roundings has the tick of that multiple (`quantize_grid`), and no
time gets a tick far after it or more than a tick before it (`quantize_accurate`), also where the
window is wider than half a tick and every time goes to its nearest tick.
-/

namespace PulseSequencer
namespace Compiler

open Binary64 (unitsPerOne unitsBound roundUnits clamp64)

/-! ## The window -/

theorem snapTolerance_isFinite : snapTolerance.isFinite = true := by decide +kernel

/-- The tolerance lies between a part in `2^30` and a part in `10^9` with the error of a double. -/
theorem exists_snapTolerance : ∃ tol : Nat, snapTolerance.signedUnits = tol ∧
    unitsPerOne ≤ 2 ^ 30 * tol ∧ 10 ^ 9 * (2 ^ 53 * tol) ≤ (2 ^ 53 + 1) * unitsPerOne :=
  ⟨snapTolerance.signedUnits.toNat, by decide +kernel⟩

theorem distance_units (x : Binary64) (n : Int) :
    ((x.signedUnits - n * unitsPerOne).natAbs : ℚ) = |x.value - n| * unitsPerOne := by
  rw [Nat.cast_natAbs, Int.cast_abs, Int.cast_sub, Int.cast_mul, Int.cast_natCast,
    ← Binary64.value_mul_unitsPerOne, ← sub_mul, abs_mul,
    abs_of_pos Binary64.unitsPerOne_cast_pos]

theorem cast_window (n : Int) : ((max n.natAbs 1 : Nat) : ℚ) = max |(n : ℚ)| 1 := by
  rw [Nat.cast_max, Nat.cast_natAbs, Int.cast_abs, Nat.cast_one]

section
variable {x : Binary64} {n : Int} (hx : x.isFinite = true) (hn : x.round.Whole n)
include hx hn

theorem snaps_iff {tol : Nat} (htol : snapTolerance.signedUnits = tol) : Snaps x ↔
    min (roundUnits (x.signedUnits - n * unitsPerOne).natAbs 1) unitsBound ≤
      min (roundUnits (tol * max n.natAbs 1) 1) unitsBound := by
  have hwindow := hn.magnitude.greater Binary64.one_whole
  obtain ⟨hnan, hpos⟩ := Binary64.mul_spec snapTolerance_isFinite hwindow.isFinite
  have hunits : (tol : Int) * max (n.natAbs : Int) 1 = (tol * max n.natAbs 1 : Nat) := by
    push_cast
    rfl
  rw [hwindow.signedUnits, htol, ← Int.mul_assoc, hunits,
    Binary64.roundSigned_mul _ Binary64.unitsPerOne_pos, Binary64.roundSigned_natCast] at hpos
  unfold Snaps
  rw [Binary64.le_iff, Binary64.sub_abs hx hn.isFinite, hn.signedUnits, hpos,
    Binary64.position_ofUnits, Binary64.signed_false]
  constructor
  · rintro ⟨-, -, h⟩
    exact_mod_cast h
  · intro h
    exact ⟨Binary64.ofUnits_isNaN _ _ _, hnan, by exact_mod_cast h⟩

theorem snaps_of_near (h : |x.value - n| ≤ max |(n : ℚ)| 1 / 2 ^ 30) : Snaps x := by
  obtain ⟨tol, htol, hwide, -⟩ := exists_snapTolerance
  have hU := Binary64.unitsPerOne_cast_pos
  have hwide' : (unitsPerOne : ℚ) ≤ 2 ^ 30 * tol := by exact_mod_cast hwide
  have hinside : (x.signedUnits - n * unitsPerOne).natAbs ≤ tol * max n.natAbs 1 := by
    have hpos : (0 : ℚ) ≤ max |(n : ℚ)| 1 / 2 ^ 30 := by positivity
    have : ((x.signedUnits - n * unitsPerOne).natAbs : ℚ) ≤ (tol * max n.natAbs 1 : Nat) := by
      rw [distance_units, Nat.cast_mul, cast_window]
      calc |x.value - n| * unitsPerOne
          ≤ max |(n : ℚ)| 1 / 2 ^ 30 * unitsPerOne := mul_le_mul_of_nonneg_right h hU.le
        _ ≤ max |(n : ℚ)| 1 / 2 ^ 30 * (2 ^ 30 * tol) := mul_le_mul_of_nonneg_left hwide' hpos
        _ = tol * max |(n : ℚ)| 1 := by
          rw [← mul_assoc, div_mul_cancel₀ _ (by norm_num), mul_comm]
    exact_mod_cast this
  rw [snaps_iff hx hn htol]
  have := Binary64.roundUnits_mono_whole hinside
  omega

/-- The difference that is compared is less than one, so it is rounded to a number of units. -/
theorem roundUnits_distance_lt :
    roundUnits (x.signedUnits - n * unitsPerOne).natAbs 1 < unitsBound := by
  have hle : (x.signedUnits - n * unitsPerOne).natAbs ≤ 1 * unitsPerOne := by
    have hhalf := Binary64.round_value hx hn
    have : ((x.signedUnits - n * unitsPerOne).natAbs : ℚ) ≤ (1 * unitsPerOne : Nat) := by
      rw [distance_units, Nat.cast_mul, Nat.cast_one]
      exact mul_le_mul_of_nonneg_right (by linarith) Binary64.unitsPerOne_cast_pos.le
    exact_mod_cast this
  obtain ⟨hlt, hfits⟩ := Binary64.fits_small (m := 1) (by decide)
  have hmono := Binary64.roundUnits_mono_whole hle
  rw [Binary64.roundUnits_exact hfits] at hmono
  omega

/-- Both sides of the comparison are whole numbers of units before they are rounded, so each
rounding adds a part in `2^53`. -/
theorem Snaps.units_le (h : Snaps x) {tol : Nat} (htol : snapTolerance.signedUnits = tol) :
    2 ^ 53 * (x.signedUnits - n * unitsPerOne).natAbs ≤
      (2 ^ 53 + 1) * (tol * max n.natAbs 1) + (x.signedUnits - n * unitsPerOne).natAbs := by
  have hbelow := roundUnits_distance_lt hx hn
  rw [snaps_iff hx hn htol] at h
  have hdown := (Binary64.roundUnits_error_whole (x.signedUnits - n * unitsPerOne).natAbs).2
  have hup := (Binary64.roundUnits_error_whole (tol * max n.natAbs 1)).1
  omega

theorem Snaps.near (h : Snaps x) :
    |x.value - n| ≤ (1 + 1 / 2 ^ 50) / 10 ^ 9 * max |(n : ℚ)| 1 := by
  obtain ⟨tol, htol, -, hnarrow⟩ := exists_snapTolerance
  have hU := Binary64.unitsPerOne_cast_pos
  have hunits : (2 ^ 53 : ℚ) * (|x.value - n| * unitsPerOne) ≤
      (2 ^ 53 + 1) * (tol * max |(n : ℚ)| 1) + |x.value - n| * unitsPerOne := by
    rw [← distance_units, ← cast_window]
    exact_mod_cast h.units_le hx hn htol
  have hnarrow' : (10 ^ 9 * (2 ^ 53 * tol) : ℚ) ≤ (2 ^ 53 + 1) * unitsPerOne := by
    exact_mod_cast hnarrow
  have hm : (0 : ℚ) < max |(n : ℚ)| 1 := by positivity
  have hscaled := mul_le_mul_of_nonneg_right hnarrow' hm.le
  have hmU := mul_pos hU hm
  refine le_of_mul_le_mul_right ?_ hU
  linarith

end

/-! ## The tick of a quotient -/

theorem clamp64_small {n : Int} (h : n.natAbs < 2 ^ 63) : clamp64 n = n := by
  unfold Binary64.clamp64
  omega

theorem tick_eq_of_near {x : Binary64} (hx : x.isFinite = true) {k : Int}
    (hk : k.natAbs < 2 ^ 63) (hhalf : |x.value - k| < 1 / 2)
    (hwindow : |x.value - k| ≤ max |(k : ℚ)| 1 / 2 ^ 30) : tick x = k := by
  obtain ⟨f, r, hf, hr, htick, -, -⟩ := tick_finite hx
  have hrk : r = k := by
    have hround := Binary64.round_value hx hr
    rw [abs_lt] at hhalf
    rw [abs_le] at hround
    have hlt : (r : ℚ) < k + 1 := by linarith
    have hgt : (k : ℚ) < r + 1 := by linarith
    have hlt' : r < k + 1 := by exact_mod_cast hlt
    have hgt' : k < r + 1 := by exact_mod_cast hgt
    omega
  subst hrk
  rw [htick, if_pos (snaps_of_near hx hr hwindow), clamp64_small hk]

/-- The tick of a quotient lies less than one before it, at most half of one after it and at most
the window after it. -/
theorem tick_near {x : Binary64} (hx : x.isFinite = true) (hsmall : |x.value| ≤ 2 ^ 45) :
    x.value - tick x < 1 ∧ tick x - x.value ≤ 1 / 2 ∧
      tick x - x.value ≤ (1 + 1 / 2 ^ 50) / 10 ^ 9 * max |(tick x : ℚ)| 1 := by
  obtain ⟨f, r, hf, hr, htick, -, -⟩ := tick_finite hx
  have hfloor := Binary64.floor_value hx hf
  have hround := Binary64.round_value hx hr
  rw [abs_le] at hsmall hround
  have huncut : ∀ n : Int, n ≤ x.value + 1 → x.value - 1 ≤ n → clamp64 n = n := by
    intro n hup hdown
    refine clamp64_small ?_
    have : (n.natAbs : ℚ) < 2 ^ 63 := by
      rw [Nat.cast_natAbs, Int.cast_abs, abs_lt]
      constructor <;> linarith
    exact_mod_cast this
  by_cases hs : Snaps x
  · rw [if_pos hs, huncut r (by linarith) (by linarith)] at htick
    have hnear := hs.near hx hr
    rw [abs_sub_comm] at hnear
    rw [htick]
    exact ⟨by linarith, by linarith, (le_abs_self _).trans hnear⟩
  · rw [if_neg hs, huncut f (by linarith) (by linarith)] at htick
    have hpos : (0 : ℚ) < (1 + 1 / 2 ^ 50) / 10 ^ 9 * max |(f : ℚ)| 1 := by positivity
    rw [htick]
    exact ⟨by linarith, by linarith, by linarith⟩

/-! ## The tick of a time -/

theorem quotient_near {t dt : Binary64} (ht : t.isFinite = true) (hdt : dt.Positive) {k : Int}
    (hk : k.natAbs ≤ 2 ^ 44) (h : |t.value - k * dt.value| ≤ |k * dt.value| / 2 ^ 50) :
    (t / dt).isFinite = true ∧ |(t / dt).value - k| ≤ max |(k : ℚ)| 1 / 2 ^ 49 := by
  have hpos := hdt.value_pos
  have hk' : |(k : ℚ)| ≤ 2 ^ 44 := by
    rw [← Int.cast_abs, ← Nat.cast_natAbs]
    exact_mod_cast hk
  have hexact : |t.value / dt.value - k| ≤ |(k : ℚ)| / 2 ^ 50 := by
    refine le_of_mul_le_mul_right ?_ hpos
    rw [abs_mul, abs_of_pos hpos] at h
    calc |t.value / dt.value - k| * dt.value
        = |t.value - k * dt.value| := by
          rw [← abs_of_pos hpos, ← abs_mul, abs_of_pos hpos, sub_mul, div_mul_cancel₀ _ hpos.ne']
      _ ≤ |(k : ℚ)| * dt.value / 2 ^ 50 := h
      _ = |(k : ℚ)| / 2 ^ 50 * dt.value := (div_mul_eq_mul_div _ _ _).symm
  have hsize : |t.value / dt.value| ≤ |(k : ℚ)| + |(k : ℚ)| / 2 ^ 50 := by
    have := abs_sub_abs_le_abs_sub (t.value / dt.value) k
    linarith
  have hsmall : |t.value / dt.value| ≤ 2 ^ 45 := by linarith
  refine ⟨Binary64.div_isFinite ht hdt hsmall, ?_⟩
  have herr := Binary64.div_error ht hdt hsmall
  have hk1 := le_max_left |(k : ℚ)| 1
  have h1 := le_max_right |(k : ℚ)| 1
  have hmax : max |t.value / dt.value| 1 ≤ 2 * max |(k : ℚ)| 1 := max_le (by linarith) (by linarith)
  have htriangle := abs_sub_le (t / dt).value (t.value / dt.value) k
  linarith

/-- **Times on the grid have their ticks**: those that are a multiple of the clock period up to a
part in `2^50`, and the product of the multiple and the period as a double. -/
theorem quantize_grid {c : Compiler} (hc : c.Accepted) {k : Int} (hk : k.natAbs ≤ 2 ^ 44) :
    (∀ t : Binary64, t.isFinite = true →
      |t.value - k * c.dt.value| ≤ |k * c.dt.value| / 2 ^ 50 → c.quantize t = k) ∧
    ((Binary64.ofInt k * c.dt).isFinite = true → c.quantize (Binary64.ofInt k * c.dt) = k) := by
  have hgrid : ∀ t : Binary64, t.isFinite = true →
      |t.value - k * c.dt.value| ≤ |k * c.dt.value| / 2 ^ 50 → c.quantize t = k := by
    intro t ht hnear
    obtain ⟨hfin, hquot⟩ := quotient_near ht hc.positive hk hnear
    have hwindow : max |(k : ℚ)| 1 ≤ 2 ^ 44 := by
      rw [← cast_window]
      exact_mod_cast (by omega : max k.natAbs 1 ≤ 2 ^ 44)
    have hpos : (0 : ℚ) < max |(k : ℚ)| 1 := by positivity
    rw [quantize_eq_tick]
    exact tick_eq_of_near hfin (by omega) (by linarith) (by linarith)
  refine ⟨hgrid, fun hfin => hgrid _ hfin ?_⟩
  have herr := Binary64.mul_whole_error (by omega) hc.positive.1 hfin
  have hpos := abs_nonneg ((k : ℚ) * c.dt.value)
  linarith

/-- Of a clock of a tenth of a second, `0.7` has the tick 7, although the quotient is below it. -/
theorem quantize_grid_below :
    (⟨.ofRatio false 1 10, none⟩ : Compiler).Accepted ∧
      (Binary64.ofRatio false 7 10 / Binary64.ofRatio false 1 10).floor.toInt64Range = 6 ∧
      (⟨.ofRatio false 1 10, none⟩ : Compiler).quantize (.ofRatio false 7 10) = 7 := by
  have hc : (⟨.ofRatio false 1 10, none⟩ : Compiler).Accepted :=
    .ofClockPeriod (ofClockPeriod_eq_ok.2 ⟨⟨by decide +kernel, by decide +kernel⟩, rfl⟩)
  exact ⟨hc, by decide +kernel,
    (quantize_grid hc (k := 7) (by decide)).1 _ (by decide +kernel) (by decide +kernel)⟩

/-- **The accuracy of ticks**: after the time by no more than the window or half a tick, before it
by less than a tick, up to the error of the quotient. -/
theorem quantize_accurate {c : Compiler} (hc : c.Accepted) {t : Binary64} (ht : t.isFinite = true)
    (hsmall : |t.value / c.dt.value| ≤ 2 ^ 44) :
    c.quantize t - t.value / c.dt.value ≤ 1000001 / 10 ^ 15 * max 1 |(c.quantize t : ℚ)| ∧
      c.quantize t - t.value / c.dt.value ≤ 1 / 2 + 1 / 2 ^ 8 ∧
      t.value / c.dt.value - c.quantize t < 1 + 1 / 2 ^ 8 := by
  have hsmall' : |t.value / c.dt.value| ≤ 2 ^ 45 := by linarith
  have hfin := Binary64.div_isFinite ht hc.positive hsmall'
  have herr := Binary64.div_error ht hc.positive hsmall'
  rw [quantize_eq_tick, max_comm]
  generalize t.value / c.dt.value = ratio at hsmall hsmall' herr ⊢
  have hone : max |ratio| 1 ≤ 2 ^ 44 := max_le hsmall (by norm_num)
  have hquot : |(t / c.dt).value| ≤ 2 ^ 45 := by
    have := abs_sub_abs_le_abs_sub (t / c.dt).value ratio
    linarith
  obtain ⟨hbefore, hafter, hwindow⟩ := tick_near hfin hquot
  rw [abs_le] at herr
  -- The exact ratio is at most two ticks away, so its error is small beside the window.
  have hratio : max |ratio| 1 ≤ 3 * max |(tick (t / c.dt) : ℚ)| 1 := by
    have habs : |ratio - tick (t / c.dt)| ≤ 2 := by
      rw [abs_le]
      constructor <;> linarith
    have hsize := abs_sub_abs_le_abs_sub ratio (tick (t / c.dt))
    have htick := le_max_left |(tick (t / c.dt) : ℚ)| 1
    have hunit := le_max_right |(tick (t / c.dt) : ℚ)| 1
    exact max_le (by linarith) (by linarith)
  exact ⟨by linarith, by linarith, by linarith⟩

/-- Beyond `10^9` ticks before zero a quarter of a tick is inside the window, and the time is moved
later. -/
theorem quantize_accurate_wide :
    let c : Compiler := ⟨.one, none⟩
    let t : Binary64 := .ofRatio true (4 * 10 ^ 9 + 1) 4
    c.Accepted ∧ c.quantize t = -10 ^ 9 ∧ t.value / c.dt.value = -10 ^ 9 - 1 / 4 ∧
      c.quantize t - t.value / c.dt.value ≤ 1000001 / 10 ^ 15 * max 1 |(c.quantize t : ℚ)| := by
  have hc : (⟨.one, none⟩ : Compiler).Accepted :=
    .ofClockPeriod (ofClockPeriod_eq_ok.2 ⟨⟨by decide +kernel, by decide +kernel⟩, rfl⟩)
  exact ⟨hc, by decide +kernel, by decide +kernel,
    (quantize_accurate hc (by decide +kernel) (by decide +kernel)).1⟩

end Compiler
end PulseSequencer
