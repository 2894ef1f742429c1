import PulseSequencer.Compiler
import PulseSequencer.Proofs.Binary64.Whole
import PulseSequencer.Proofs.Validation

/-!
The clock tick of a time.

`quantize` divides a time by the clock period and takes the nearest tick if it is close enough and
the tick before otherwise.  The choice changes with a window that grows with the tick, so it is
not plain that later times have later ticks; `quantize_le_quantize` says that they do, over all
doubles: beside a window, across zero, where the window is wider than half a tick, where the
quotient overflows and where the tick is cut to 64 bits.  `quantize_monotone` adds where the ticks
end and that both zeros have the tick zero.
-/

namespace PulseSequencer
namespace Compiler

open Binary64 (unitsPerOne unitsBound Whole clamp64)

/-! ## Accepted clocks -/

/-- The compilers that can be made: of an accepted clock period or the default one, with or
without an accepted duration. -/
inductive Accepted : Compiler → Prop
  | default : Accepted default
  | ofClockPeriod {dt c} : ofClockPeriod dt = .ok c → Accepted c
  | withDuration {c c' duration} : Accepted c → c.withDuration duration = .ok c' → Accepted c'

theorem ofClockPeriod_eq_ok {dt : Binary64} {c : Compiler} :
    ofClockPeriod dt = .ok c ↔ dt.Positive ∧ c = ⟨dt, none⟩ := by
  simp only [Compiler.ofClockPeriod, Except.bind_eq_ok, Except.pure_eq_ok,
    Validation.clockPeriod_eq_ok]
  constructor
  · rintro ⟨-, ⟨hf, hp⟩, rfl⟩
    exact ⟨⟨hf, hp⟩, rfl⟩
  · rintro ⟨⟨hf, hp⟩, rfl⟩
    exact ⟨(), ⟨hf, hp⟩, rfl⟩

theorem withDuration_eq_ok {c c' : Compiler} {d : Binary64} :
    c.withDuration d = .ok c' ↔
      (d.isFinite = true ∧ ¬ d < Binary64.zero) ∧ c' = { c with duration := some d } := by
  simp only [Compiler.withDuration, Except.bind_eq_ok, Except.pure_eq_ok,
    Validation.programDuration_eq_ok]
  exact ⟨fun ⟨_, h⟩ => h, fun h => ⟨(), h⟩⟩

theorem defaultClockPeriod_positive : defaultClockPeriod.Positive :=
  ⟨by decide +kernel, by decide +kernel⟩

theorem Accepted.positive {c : Compiler} (h : c.Accepted) : c.dt.Positive := by
  induction h with
  | default => exact defaultClockPeriod_positive
  | ofClockPeriod h =>
    obtain ⟨hdt, rfl⟩ := ofClockPeriod_eq_ok.1 h
    exact hdt
  | withDuration _ h ih =>
    obtain ⟨-, rfl⟩ := withDuration_eq_ok.1 h
    exact ih

theorem Accepted.duration_ok {c : Compiler} (h : c.Accepted) {d : Binary64}
    (hd : c.duration = some d) : d.isFinite = true ∧ ¬ d < Binary64.zero := by
  induction h with
  | default => cases hd
  | ofClockPeriod h =>
    obtain ⟨-, rfl⟩ := ofClockPeriod_eq_ok.1 h
    cases hd
  | withDuration _ h _ =>
    obtain ⟨hok, rfl⟩ := withDuration_eq_ok.1 h
    cases hd
    exact hok

/-! ## The tick of a quotient -/

/-- A quotient is close enough to its nearest whole number to count as that number. -/
def Snaps (x : Binary64) : Prop :=
  (x - x.round).abs ≤ snapTolerance * x.round.abs.greater Binary64.one

instance (x : Binary64) : Decidable (Snaps x) :=
  inferInstanceAs (Decidable ((x - x.round).abs ≤ snapTolerance * x.round.abs.greater Binary64.one))

/-- The tick of a time that is `x` clock periods. -/
def tick (x : Binary64) : Int := if Snaps x then x.round.toInt64Range else x.floor.toInt64Range

theorem quantize_eq_tick (c : Compiler) (t : Binary64) : c.quantize t = tick (t / c.dt) := rfl

theorem tick_infinite (s : Bool) : tick (.infinite s) = if s then -(2 ^ 63) else 2 ^ 63 - 1 := by
  have h : ¬ Snaps (.infinite s) := by
    show ¬ ((Binary64.add (.infinite s) (.infinite !s)).abs.le _ = true)
    cases s <;> simp [Binary64.add, Binary64.abs, Binary64.le, Binary64.lt, Binary64.equal]
  unfold tick
  rw [if_neg h]
  rfl

theorem tick_bounds (x : Binary64) : -(2 ^ 63) ≤ tick x ∧ tick x ≤ 2 ^ 63 - 1 := by
  have h : ∀ y : Binary64, -(2 ^ 63) ≤ y.toInt64Range ∧ y.toInt64Range ≤ 2 ^ 63 - 1 := by
    intro y
    cases y with
    | nan => decide
    | infinite s => cases s <;> decide
    | finite s units below fits =>
      have : (0 : Int) ≤ units / unitsPerOne := Int.ediv_nonneg (by omega) (by omega)
      cases s <;> simp only [Binary64.toInt64Range] <;> simp <;> omega
  unfold tick
  split
  · exact h _
  · exact h _

theorem quantize_bounds (c : Compiler) (t : Binary64) :
    -(2 ^ 63) ≤ c.quantize t ∧ c.quantize t ≤ 2 ^ 63 - 1 := by
  rw [quantize_eq_tick]
  exact tick_bounds _

theorem Snaps.of_nearer {x y : Binary64} {n : Int} (hx : x.isFinite = true) (hy : y.isFinite = true)
    (hrx : x.round.Whole n) (hry : y.round.Whole n)
    (hd : (y.signedUnits - n * unitsPerOne).natAbs ≤ (x.signedUnits - n * unitsPerOne).natAbs)
    (h : Snaps x) : Snaps y := by
  unfold Snaps at h ⊢
  rw [Binary64.sub_abs hx hrx.isFinite, hrx.signedUnits, hrx.abs hry] at h
  rw [Binary64.sub_abs hy hry.isFinite, hry.signedUnits]
  refine Binary64.le_trans (Binary64.ofUnits_le_ofUnits (by decide) (by decide) ?_) h
  omega

theorem le_of_units_lt {m n : Int} (h : m * unitsPerOne < n * unitsPerOne + unitsPerOne) :
    m ≤ n := by
  have hU := Binary64.unitsPerOne_pos
  refine Int.le_of_lt_add_one (Int.lt_of_mul_lt_mul_right (a := unitsPerOne) ?_ (by omega))
  rw [Int.add_mul, Int.one_mul]
  exact h

theorem tick_finite {x : Binary64} (hx : x.isFinite = true) :
    ∃ f r : Int, x.floor.Whole f ∧ x.round.Whole r ∧ tick x = clamp64 (if Snaps x then r else f) ∧
      f ≤ r ∧ r ≤ f + 1 := by
  obtain ⟨f, hf, hf1, hf2⟩ := Binary64.floor_spec hx
  obtain ⟨r, hr, hr1, hr2, -, -⟩ := Binary64.round_spec hx
  refine ⟨f, r, hf, hr, ?_, le_of_units_lt (by omega), le_of_units_lt ?_⟩
  · unfold tick
    split
    · exact hr.toInt64Range
    · exact hf.toInt64Range
  · rw [Int.add_mul, Int.one_mul]
    omega

/-- The tick is a whole number near the quotient, cut to the range; an infinite quotient counts as
the whole number that the doubles end at. -/
theorem exists_tick_eq {x : Binary64} (hx : x.isNaN = false) :
    ∃ n : Int, tick x = clamp64 n ∧ 2 * (n * unitsPerOne) ≤ 2 * x.position + unitsPerOne ∧
      x.position < n * unitsPerOne + unitsPerOne := by
  have hU := Binary64.unitsPerOne_pos
  cases x with
  | nan => simp [Binary64.isNaN] at hx
  | infinite s =>
    obtain ⟨b, hb, hbound⟩ := Binary64.exists_unitsBound_eq
    have hbound : (unitsBound : Int) = b * unitsPerOne := by exact_mod_cast hbound
    refine ⟨if s then -b else b, ?_⟩
    rw [tick_infinite]
    unfold Binary64.clamp64
    cases s
    · simp only [Binary64.position, Bool.false_eq_true, if_false]
      omega
    · simp only [Binary64.position, if_true, Int.neg_mul]
      omega
  | finite s units below fits =>
    obtain ⟨f, r, hf, hr, htick, -, -⟩ := tick_finite (x := .finite s units below fits) rfl
    obtain ⟨f', hf', hf1, hf2⟩ := Binary64.floor_spec (x := .finite s units below fits) rfl
    obtain ⟨r', hr', hr1, hr2, -, -⟩ := Binary64.round_spec (x := .finite s units below fits) rfl
    rw [← hf.unique hf'] at hf1 hf2
    rw [← hr.unique hr'] at hr1 hr2
    refine ⟨_, htick, ?_⟩
    simp only [Binary64.position]
    split <;> omega

theorem tick_le {x : Binary64} (hx : x.isNaN = false) {n : Int}
    (h : x.position ≤ n * unitsPerOne) : tick x ≤ clamp64 n := by
  have hU := Binary64.unitsPerOne_pos
  obtain ⟨m, hm, hle, -⟩ := exists_tick_eq hx
  rw [hm]
  exact Binary64.clamp64_mono (le_of_units_lt (by omega))

theorem le_tick {x : Binary64} (hx : x.isNaN = false) {n : Int}
    (h : n * unitsPerOne ≤ x.position) : clamp64 n ≤ tick x := by
  obtain ⟨m, hm, -, hlt⟩ := exists_tick_eq hx
  rw [hm]
  exact Binary64.clamp64_mono (le_of_units_lt (by omega))

theorem floor_le_floor {x y : Binary64} {m n : Int} (hx : x.isFinite = true)
    (hy : y.isFinite = true) (h : x.signedUnits ≤ y.signedUnits) (hm : x.floor.Whole m)
    (hn : y.floor.Whole n) : m ≤ n := by
  obtain ⟨m', hm', h1, -⟩ := Binary64.floor_spec hx
  obtain ⟨n', hn', -, h2⟩ := Binary64.floor_spec hy
  rw [hm.unique hm', hn.unique hn']
  exact le_of_units_lt (by omega)

theorem round_le_round {x y : Binary64} {m n : Int} (hx : x.isFinite = true)
    (hy : y.isFinite = true) (h : x.signedUnits ≤ y.signedUnits) (hm : x.round.Whole m)
    (hn : y.round.Whole n) : m ≤ n := by
  obtain ⟨m', hm', h1, -, -, h1'⟩ := Binary64.round_spec hx
  obtain ⟨n', hn', -, h2, h2', -⟩ := Binary64.round_spec hy
  rw [hm.unique hm', hn.unique hn']
  refine le_of_units_lt ?_
  -- Both can lie on halves; the halves of one side of zero all go the same way.
  rcases Int.lt_or_le y.signedUnits 0 with hneg | hpos
  · have := h1' (by omega)
    omega
  · have := h2' hpos
    omega

/-- Between two finite quotients the tick grows: a tick can only fall back from the nearest number
to the one before, and then the later quotient would count as the nearest number as well. -/
theorem tick_mono_finite {x y : Binary64} (hx : x.isFinite = true) (hy : y.isFinite = true)
    (h : x.signedUnits ≤ y.signedUnits) : tick x ≤ tick y := by
  obtain ⟨fx, rx, hfx, hrx, htx, hx1, hx2⟩ := tick_finite hx
  obtain ⟨fy, ry, hfy, hry, hty, hy1, hy2⟩ := tick_finite hy
  have hf := floor_le_floor hx hy h hfx hfy
  have hr := round_le_round hx hy h hrx hry
  rw [htx, hty]
  by_cases hsx : Snaps x
  · by_cases hsy : Snaps y
    · rw [if_pos hsx, if_pos hsy]
      exact Binary64.clamp64_mono hr
    · rw [if_pos hsx, if_neg hsy]
      apply Binary64.clamp64_mono
      apply Int.le_of_not_gt
      intro hlt
      have hrr : ry = rx := by omega
      subst hrr
      obtain ⟨f', hf', -, hbelow⟩ := Binary64.floor_spec hy
      rw [← hfy.unique hf', show fy = ry - 1 by omega, Int.sub_mul, Int.one_mul] at hbelow
      exact hsy (hsx.of_nearer hx hy hrx hry (by omega))
  · rw [if_neg hsx]
    apply Binary64.clamp64_mono
    split <;> omega

/-- **Later quotients have later ticks.** -/
theorem tick_mono {x y : Binary64} (h : x ≤ y) : tick x ≤ tick y := by
  rcases Binary64.le_cases h with rfl | rfl | ⟨hx, hy, hle⟩
  · rw [tick_infinite]
    exact (tick_bounds y).1
  · rw [tick_infinite]
    exact (tick_bounds x).2
  · exact tick_mono_finite hx hy hle

/-- **Later times have later ticks.** -/
theorem quantize_le_quantize {c : Compiler} (hd : c.dt.Positive) {a b : Binary64} (h : a ≤ b) :
    c.quantize a ≤ c.quantize b := by
  rw [quantize_eq_tick, quantize_eq_tick]
  exact tick_mono (Binary64.div_le_div hd h)

theorem quantize_congr {c : Compiler} (hd : c.dt.Positive) {a b : Binary64} (ha : a.isNaN = false)
    (hb : b.isNaN = false) (h : a.position = b.position) : c.quantize a = c.quantize b := by
  apply Int.le_antisymm
  · exact quantize_le_quantize hd (Binary64.le_iff.2 ⟨ha, hb, Int.le_of_eq h⟩)
  · exact quantize_le_quantize hd (Binary64.le_iff.2 ⟨hb, ha, Int.le_of_eq h.symm⟩)

theorem quantize_infinite {c : Compiler} (hd : c.dt.Positive) (s : Bool) :
    c.quantize (.infinite s) = if s then -(2 ^ 63) else 2 ^ 63 - 1 := by
  rw [quantize_eq_tick, Binary64.infinite_div hd, tick_infinite]

theorem quantize_of_zero {c : Compiler} (hd : c.dt.Positive) {z : Binary64}
    (hz : z.isFinite = true) (h0 : z.signedUnits = 0) : c.quantize z = 0 := by
  have hnan := Binary64.div_isNaN (Binary64.isNaN_of_isFinite hz) hd
  have hround := Binary64.roundSigned_small (n := 0) (by decide)
  have hle := Binary64.position_div_le hz hd (n := 0) (by omega)
  have hge := Binary64.le_position_div hz hd (n := 0) (by omega)
  rw [hround] at hle hge
  rw [quantize_eq_tick]
  exact Int.le_antisymm (tick_le hnan hle) (le_tick hnan hge)

/-- **Ticks keep the order of times**, over all numbers and both infinities, from the first tick to
the last; both zeros have the tick zero. -/
theorem quantize_monotone {c : Compiler} (hc : c.Accepted) :
    (∀ a b : Binary64, a ≤ b → c.quantize a ≤ c.quantize b) ∧
      (∀ negative, c.quantize (.ofRatio negative 0 1) = 0) ∧
      ∀ negative, c.quantize (.infinite negative) = if negative then -(2 ^ 63) else 2 ^ 63 - 1 := by
  refine ⟨fun a b => quantize_le_quantize hc.positive, fun negative => ?_,
    quantize_infinite hc.positive⟩
  have hzero : (Binary64.ofRatio negative 0 1).isFinite = true ∧
      (Binary64.ofRatio negative 0 1).signedUnits = 0 := by
    cases negative <;> decide +kernel
  exact quantize_of_zero hc.positive hzero.1 hzero.2

/-- Times in order: the quotient overflows, the tick is cut, the window is wider than half a tick,
rounding down, both zeros, and both sides of the edge of a window. -/
theorem quantize_monotone_edges :
    let c : Compiler := default
    let times : List Binary64 := [.infinite true, .ofRatio true (10 ^ 308) 1,
      .ofRatio true (10 ^ 12) 1, .ofRatio true 100000000075 (10 ^ 10),
      .ofRatio true 100000000025 (10 ^ 10), .ofRatio true 25 (10 ^ 9), .ofRatio true 0 1,
      .ofRatio false 0 1, .ofRatio false 1499999 (10 ^ 11),
      .ofRatio false 149999999999 (10 ^ 16), .infinite false]
    c.Accepted ∧ times.Pairwise (· ≤ ·) ∧
      times.map c.quantize = [-(2 ^ 63), -(2 ^ 63), -(2 ^ 63), -1000000001, -1000000000, -3, 0, 0,
        1499, 1500, 2 ^ 63 - 1] ∧
      (times.map c.quantize).Pairwise (· ≤ ·) := by
  intro c times
  have hc : c.Accepted := .default
  have htimes : times.Pairwise (· ≤ ·) := by decide +kernel
  exact ⟨hc, htimes, by decide +kernel,
    List.pairwise_map.2 (htimes.imp fun {a b} h => (quantize_monotone hc).1 a b h)⟩

end Compiler
end PulseSequencer
