import Mathlib.Algebra.Order.Field.Rat
import Mathlib.Tactic.NormNum
import PulseSequencer.Proofs.Binary64.Value
import PulseSequencer.Proofs.Compile

/-!
When the limit on the ticks of a program holds.

The limit is checked on a difference of two ticks, and each tick is cut to the 64-bit range.  A
sequence that lasts longer than the limit is therefore refused only if it does not lie as a whole
near one end of that range or beyond it.  `compile_overlong` gives the exact border for sequences
that last more than twice the limit: `edge` clock periods from zero, where a quotient rounds to the
tick that is the limit away from the end of the range.
-/

namespace PulseSequencer

namespace Binary64

/-! ## Doubles of the range -/

theorem roundSigned_multiple {k : Int} (hk : k.natAbs ≤ 2 ^ 52) :
    roundSigned (k * 2 ^ 11 * unitsPerOne) 1 = k * 2 ^ 11 * unitsPerOne := by
  have habs : (k * 2 ^ 11 * unitsPerOne).natAbs = k.natAbs * (2 ^ 11 * unitsPerOne) := by
    rw [Int.natAbs_mul, Int.natAbs_mul, Int.natAbs_natCast, Nat.mul_assoc]
    rfl
  refine roundSigned_exact ?_ ?_ <;> rw [habs]
  · obtain ⟨e, he⟩ := exists_unitsPerOne_eq
    rw [he, ← Nat.pow_add]
    exact fits_mul_two_pow _ (Nat.le_trans hk (by decide))
  · refine Nat.lt_of_le_of_lt ?_ (two_pow_mul_unitsPerOne_lt (k := 63) (by decide))
    rw [← Nat.mul_assoc]
    exact Nat.mul_le_mul_right _ (by omega)

end Binary64

namespace Compiler

open Binary64 (unitsPerOne clamp64 roundSigned roundUnits)

/-! ## Ticks near the ends of the range -/

/-- The distance from zero, in clock periods, from which on no more ticks than the limit are left
in the 64-bit range.  The last term is half of the distance between doubles of that size. -/
def edge : Nat := 2 ^ 63 - maxProgramTicks - 2 ^ 9

theorem roundSigned_edge :
    roundSigned (edge * unitsPerOne) 1 = (2 ^ 63 - 2 ^ 44) * unitsPerOne := by
  decide +kernel

/-- Before the edge it rounds to a number at least `2^10` further from the end. -/
theorem roundUnits_le_of_lt_edge {num den : Nat} (hd : 0 < den)
    (h : num < edge * unitsPerOne * den) :
    roundUnits num den ≤ (2 ^ 63 - 2 ^ 44 - 2 ^ 10) * unitsPerOne := by
  obtain ⟨e, he⟩ : ∃ e, 2 ^ e = 2 ^ 10 * unitsPerOne := by
    obtain ⟨e, he⟩ := Binary64.exists_unitsPerOne_eq
    exact ⟨10 + e, by rw [he, Nat.pow_add]⟩
  have hmiddle : 2 * num < (2 * (2 ^ 53 - 2 ^ 34 - 1) + 1) * 2 ^ e * den := by
    calc 2 * num < 2 * (edge * unitsPerOne * den) := by omega
      _ = (2 * (2 ^ 53 - 2 ^ 34 - 1) + 1) * 2 ^ e * den := by
        rw [he, ← Nat.mul_assoc, ← Nat.mul_assoc, ← Nat.mul_assoc]
        rfl
  have h := Binary64.roundUnits_le_of_lt_middle hd (by decide) (by decide) hmiddle
  rwa [he, ← Nat.mul_assoc] at h

theorem roundSigned_le_of_lt_edge {units : Int} {dt : Binary64} (hd : dt.Positive)
    (h : units < edge * dt.signedUnits) :
    roundSigned (units * unitsPerOne) dt.signedUnits.toNat ≤
      (2 ^ 63 - 2 ^ 44 - 2 ^ 10) * unitsPerOne := by
  have hU := Binary64.unitsPerOne_pos
  have hpos := hd.signedUnits_pos
  obtain ⟨den, hden⟩ : ∃ den : Nat, dt.signedUnits = den :=
    ⟨_, (Int.toNat_of_nonneg (by omega)).symm⟩
  rw [hden] at h hpos ⊢
  rw [Int.toNat_natCast]
  have hlt : units * unitsPerOne < (edge * unitsPerOne * den : Nat) := by
    push_cast
    rw [Int.mul_right_comm]
    exact Int.mul_lt_mul_of_pos_right h (by omega)
  generalize units * unitsPerOne = num at hlt
  unfold Binary64.roundSigned Binary64.signed
  simp only [decide_eq_true_eq]
  split
  · omega
  · have := @roundUnits_le_of_lt_edge num.natAbs den (by omega) (by omega)
    omega

/-- The multiple of `2^11` at or below a ratio in the 64-bit range. -/
theorem exists_multiple {units den : Int} (hden : 0 < den) (hlo : -(2 ^ 63 * den) ≤ units)
    (hhi : units ≤ 2 ^ 63 * den) : ∃ k : Int, k.natAbs ≤ 2 ^ 52 ∧
      k * 2 ^ 11 * den ≤ units ∧ units < (k + 1) * 2 ^ 11 * den := by
  have hscale : ∀ k : Int, k * 2 ^ 11 * den = 2 ^ 11 * den * k := fun k => by
    rw [Int.mul_assoc, Int.mul_comm]
  have hdm := Int.mul_ediv_add_emod units (2 ^ 11 * den)
  have h0 := Int.emod_nonneg units (show 2 ^ 11 * den ≠ 0 by omega)
  have h1 := Int.emod_lt_of_pos units (show 0 < 2 ^ 11 * den by omega)
  generalize units / (2 ^ 11 * den) = k at hdm
  have hle : k * 2 ^ 11 * den ≤ units := by
    rw [hscale]
    omega
  have hlt : units < (k + 1) * 2 ^ 11 * den := by
    rw [hscale, Int.mul_add]
    omega
  refine ⟨k, ?_, hle, hlt⟩
  have hk : k * 2 ^ 11 ≤ 2 ^ 63 := Int.le_of_mul_le_mul_right (Int.le_trans hle hhi) hden
  have hk' : -(2 ^ 63) < (k + 1) * 2 ^ 11 := by
    refine Int.lt_of_mul_lt_mul_right (a := den) ?_ (by omega)
    rw [Int.neg_mul]
    omega
  omega

section
variable {c : Compiler} (hd : c.dt.Positive) {t : Binary64} (ht : t.isFinite = true)
include hd ht

theorem le_quantize_of_edge (h : edge * c.dt.signedUnits ≤ t.signedUnits) :
    2 ^ 63 - 2 ^ 44 ≤ c.quantize t := by
  have hpos := Binary64.le_position_div ht hd h
  rw [roundSigned_edge] at hpos
  exact le_tick (Binary64.div_isNaN (Binary64.isNaN_of_isFinite ht) hd) hpos

theorem quantize_le_of_edge (h : t.signedUnits ≤ -(edge * c.dt.signedUnits)) :
    c.quantize t ≤ -(2 ^ 63 - 2 ^ 44) := by
  rw [← Int.neg_mul] at h
  have hpos := Binary64.position_div_le ht hd h
  rw [Int.neg_mul, Binary64.roundSigned_neg, roundSigned_edge, ← Int.neg_mul] at hpos
  exact tick_le (Binary64.div_isNaN (Binary64.isNaN_of_isFinite ht) hd) hpos

theorem quantize_le_of_lt_edge (h : t.signedUnits < edge * c.dt.signedUnits) :
    c.quantize t ≤ 2 ^ 63 - 2 ^ 44 - 2 ^ 10 := by
  have hpos := roundSigned_le_of_lt_edge hd h
  rw [← Binary64.position_div ht hd] at hpos
  exact tick_le (Binary64.div_isNaN (Binary64.isNaN_of_isFinite ht) hd) hpos

theorem le_quantize_of_lt_edge (h : -(edge * c.dt.signedUnits) < t.signedUnits) :
    -(2 ^ 63 - 2 ^ 44 - 2 ^ 10) ≤ c.quantize t := by
  have hpos := roundSigned_le_of_lt_edge hd (show -t.signedUnits < _ by omega)
  rw [Int.neg_mul, Binary64.roundSigned_neg, ← Binary64.position_div ht hd] at hpos
  refine @le_tick _ (Binary64.div_isNaN (Binary64.isNaN_of_isFinite ht) hd)
    (-(2 ^ 63 - 2 ^ 44 - 2 ^ 10)) ?_
  rw [Int.neg_mul]
  omega

theorem quantize_le_multiple {k : Int} (hk : k.natAbs ≤ 2 ^ 52)
    (h : t.signedUnits ≤ k * 2 ^ 11 * c.dt.signedUnits) : c.quantize t ≤ clamp64 (k * 2 ^ 11) := by
  have hpos := Binary64.position_div_le ht hd h
  rw [Binary64.roundSigned_multiple hk] at hpos
  exact tick_le (Binary64.div_isNaN (Binary64.isNaN_of_isFinite ht) hd) hpos

theorem multiple_le_quantize {k : Int} (hk : k.natAbs ≤ 2 ^ 52)
    (h : k * 2 ^ 11 * c.dt.signedUnits ≤ t.signedUnits) : clamp64 (k * 2 ^ 11) ≤ c.quantize t := by
  have hpos := Binary64.le_position_div ht hd h
  rw [Binary64.roundSigned_multiple hk] at hpos
  exact le_tick (Binary64.div_isNaN (Binary64.isNaN_of_isFinite ht) hd) hpos

/-- **In the 64-bit range a tick is near the exact quotient**: it lies between the multiples of
`2^11` beside the quotient, and those are doubles. -/
theorem quantize_near (hlo : -(2 ^ 63 * c.dt.signedUnits) ≤ t.signedUnits)
    (hhi : t.signedUnits ≤ 2 ^ 63 * c.dt.signedUnits) :
    (c.quantize t - 2 ^ 11) * c.dt.signedUnits < t.signedUnits ∧
      t.signedUnits < (c.quantize t + 2 ^ 11 + 1) * c.dt.signedUnits := by
  have hpos := hd.signedUnits_pos
  constructor
  · obtain ⟨k, hk, hle, hlt⟩ := exists_multiple hpos (show -(2 ^ 63 * _) ≤ -t.signedUnits by omega)
      (by omega)
    have hq := quantize_le_multiple hd ht (k := -k) (by omega) (by simp only [Int.neg_mul]; omega)
    have hbound : c.quantize t - 2 ^ 11 ≤ -((k + 1) * 2 ^ 11) := by
      unfold Binary64.clamp64 at hq
      omega
    have := Int.mul_le_mul_of_nonneg_right hbound (Int.le_of_lt hpos)
    rw [Int.neg_mul] at this
    omega
  · obtain ⟨k, hk, hle, hlt⟩ := exists_multiple hpos hlo hhi
    have hq := multiple_le_quantize hd ht hk hle
    have hbound : (k + 1) * 2 ^ 11 ≤ c.quantize t + 2 ^ 11 + 1 := by
      unfold Binary64.clamp64 at hq
      omega
    exact Int.lt_of_lt_of_le hlt (Int.mul_le_mul_of_nonneg_right hbound (Int.le_of_lt hpos))

end

/-- **What is left of a long interval after the cut.** The ticks of its ends differ by more than the
limit exactly if it begins before the upper edge and ends after the lower one. -/
theorem limit_lt_sub_iff {c : Compiler} (hd : c.dt.Positive) {start stop : Binary64}
    (hstart : start.isFinite = true) (hstop : stop.isFinite = true)
    (hlong : 2 * maxProgramTicks * c.dt.signedUnits < stop.signedUnits - start.signedUnits) :
    (maxProgramTicks : Int) < c.quantize stop - c.quantize start ↔
      start.signedUnits < edge * c.dt.signedUnits ∧
        -(edge * c.dt.signedUnits) < stop.signedUnits := by
  have hpos := hd.signedUnits_pos
  have bstart := quantize_bounds c start
  have bstop := quantize_bounds c stop
  constructor
  · intro hlimit
    unfold maxProgramTicks at hlimit
    constructor
    · refine Int.not_le.1 fun h => ?_
      have := le_quantize_of_edge hd hstart h
      omega
    · refine Int.not_le.1 fun h => ?_
      have := quantize_le_of_edge hd hstop h
      omega
  · rintro ⟨hupper, hlower⟩
    have hq := quantize_le_of_lt_edge hd hstart hupper
    have hq' := le_quantize_of_lt_edge hd hstop hlower
    unfold maxProgramTicks at hlong ⊢
    -- An end beyond the range counts as the end of the range.
    rcases Int.lt_or_le (2 ^ 63 * c.dt.signedUnits) stop.signedUnits with hout | hstop_le
    · have := multiple_le_quantize hd hstop (k := 2 ^ 52) (by decide) (by omega)
      unfold Binary64.clamp64 at this
      omega
    rcases Int.lt_or_le start.signedUnits (-(2 ^ 63 * c.dt.signedUnits)) with hout | hstart_le
    · have := quantize_le_multiple hd hstart (k := -(2 ^ 52)) (by decide) (by omega)
      unfold Binary64.clamp64 at this
      omega
    · have h1 := (quantize_near hd hstart hstart_le (by omega)).1
      have h2 := (quantize_near hd hstop (by omega) hstop_le).2
      have : (2 ^ 45 : Int) < c.quantize stop + 2 ^ 11 + 1 - (c.quantize start - 2 ^ 11) := by
        refine Int.lt_of_mul_lt_mul_right (a := c.dt.signedUnits) ?_ (by omega)
        rw [Int.sub_mul]
        omega
      omega

/-! ## The limit of a compilation -/

section
variable {c : Compiler} (hd : c.dt.Positive) (hdur : c.duration = none) {s : Sequence}
  (hs : s.WellFormed) (hord : s.startTime ≤ s.stopTime)
include hd hdur hs hord

/-- The ticks of the switches and of the declared end lie between those of the start and the
stop. -/
theorem offset_bounds {t : Binary64}
    (ht : (∃ ch ∈ s.channels, t ∈ ch.switches) ∨ t = c.declaredEnd s) :
    0 ≤ c.quantize t - c.quantize s.startTime ∧ c.quantize t ≤ c.quantize s.stopTime := by
  rcases ht with ⟨ch, hch, ht⟩ | rfl
  · have := quantize_le_quantize hd (hs.startTime_le hch ht)
    have := quantize_le_quantize hd (hs.le_stopTime hch ht)
    omega
  · simp only [declaredEnd, hdur]
    have := quantize_le_quantize hd hord
    omega

theorem exists_compile_iff_limit : (∃ p, c.compile s = .ok p) ↔
    c.quantize s.stopTime - c.quantize s.startTime ≤ maxProgramTicks := by
  have hbounds := fun {t} ht => @offset_bounds c hd hdur s hs hord t ht
  rw [exists_compile_iff]
  constructor
  · rintro ⟨-, -, hend⟩
    simp only [declaredEnd, hdur] at hend
    exact hend.2
  · intro hlimit
    refine ⟨hs.width.2, fun ch hch t ht => ?_, ?_⟩
    · have := hbounds (.inl ⟨ch, hch, ht⟩)
      exact ⟨this.1, by omega⟩
    · have := hbounds (.inr rfl)
      exact ⟨this.1, by omega⟩

theorem exists_resourceLimit_iff :
    (∃ r, c.compile s = .error (.invalid (.resourceLimit "program ticks" maxProgramTicks r))) ↔
      (maxProgramTicks : Int) < c.quantize s.stopTime - c.quantize s.startTime := by
  have hok := exists_compile_iff_limit hd hdur hs hord
  constructor
  · rintro ⟨r, herr⟩
    refine Int.not_le.1 fun hle => ?_
    obtain ⟨p, hp⟩ := hok.2 hle
    rw [herr] at hp
    cases hp
  · intro hlt
    cases hc : c.compile s with
    | ok p =>
      have := hok.1 ⟨p, hc⟩
      omega
    | error e =>
      obtain ⟨t, ht, hfail⟩ := compile_eq_error hs.width.2 hc
      exact ⟨_, by rw [offset_eq_error (offset_bounds hd hdur hs hord ht).1 hfail]⟩

end

/-- A sequence begins before the upper edge and ends after the lower one, in exact values. -/
def InReach (c : Compiler) (s : Sequence) : Prop :=
  s.startTime.value / c.dt.value < edge ∧ -(edge : ℚ) < s.stopTime.value / c.dt.value

/-- The exact number of clock periods in a sequence is more than twice the limit. -/
def Overlong (c : Compiler) (s : Sequence) : Prop :=
  2 * (maxProgramTicks : ℚ) < (s.stopTime.value - s.startTime.value) / c.dt.value

theorem inReach_iff {c : Compiler} (hd : c.dt.Positive) {s : Sequence} : c.InReach s ↔
    s.startTime.signedUnits < edge * c.dt.signedUnits ∧
      -(edge * c.dt.signedUnits) < s.stopTime.signedUnits := by
  have hpos : (0 : ℚ) < c.dt.signedUnits := by exact_mod_cast hd.signedUnits_pos
  unfold InReach
  rw [Binary64.value_div_value, Binary64.value_div_value, div_lt_iff₀ hpos, lt_div_iff₀ hpos,
    neg_mul]
  norm_cast

theorem overlong_iff {c : Compiler} (hd : c.dt.Positive) {s : Sequence} : c.Overlong s ↔
    2 * maxProgramTicks * c.dt.signedUnits < s.stopTime.signedUnits - s.startTime.signedUnits := by
  have hpos : (0 : ℚ) < c.dt.signedUnits := by exact_mod_cast hd.signedUnits_pos
  unfold Overlong
  rw [sub_div, Binary64.value_div_value, Binary64.value_div_value, ← sub_div, lt_div_iff₀ hpos]
  norm_cast

/-- **Overlong sequences.** One that lasts more than twice the limit is refused for it exactly if it
is in reach; out of reach it has a program. -/
theorem compile_overlong {c : Compiler} (hc : c.Accepted) (hdur : c.duration = none)
    {s : Sequence} (hs : s.Reachable) (hord : s.startTime ≤ s.stopTime) (hlong : c.Overlong s) :
    ((∃ r, c.compile s = .error (.invalid (.resourceLimit "program ticks" maxProgramTicks r))) ↔
      c.InReach s) ∧
    ((∃ p, c.compile s = .ok p) ↔ ¬ c.InReach s) := by
  have hd := hc.positive
  have hw := hs.wellFormed
  have hlimit := limit_lt_sub_iff hd hw.startTime_isFinite hw.stopTime_isFinite
    ((overlong_iff hd).1 hlong)
  rw [exists_resourceLimit_iff hd hdur hw hord, exists_compile_iff_limit hd hdur hw hord,
    inReach_iff hd, ← hlimit]
  exact ⟨Iff.rfl, Int.not_lt.symm⟩

/-- With the clock of ten nanoseconds, a sequence whose start is just in reach is refused even if
its stop is far beyond the last tick. -/
theorem compile_overlong_in_reach :
    let s := Sequence.attempt ⟨[Channel.resting false], Binary64.zero, Binary64.zero⟩
      (.interval (.ofNat 92233544446) (some (.ofNat (10 ^ 300))))
    s.Reachable ∧ (default : Compiler).Overlong s ∧ (default : Compiler).InReach s ∧
      ∃ r, (default : Compiler).compile s =
        .error (.invalid (.resourceLimit "program ticks" maxProgramTicks r)) := by
  intro s
  have hs : s.Reachable := .attempt _ (.ofCount (n := 1) rfl)
  have hlong : (default : Compiler).Overlong s :=
    (overlong_iff defaultClockPeriod_positive).2 (by decide +kernel)
  have hreach : (default : Compiler).InReach s :=
    (inReach_iff defaultClockPeriod_positive).2 (by decide +kernel)
  have hord : s.startTime ≤ s.stopTime := by decide +kernel
  exact ⟨hs, hlong, hreach, (compile_overlong .default rfl hs hord hlong).1.2 hreach⟩

/-- Beyond the last tick both ends count as it, and however long the sequence, its program is
empty. -/
theorem compile_overlong_out_of_reach :
    let s := Sequence.attempt ⟨[Channel.resting false], Binary64.zero, Binary64.zero⟩
      (.interval (.ofNat (10 ^ 300)) (some (.ofNat (2 * 10 ^ 300))))
    s.Reachable ∧ s.startTime ≤ s.stopTime ∧ (default : Compiler).Overlong s ∧
      ∃ p, (default : Compiler).compile s = .ok p ∧ p.periodTicks = 0 := by
  intro s
  have hs : s.Reachable := .attempt _ (.ofCount (n := 1) rfl)
  have hlong : (default : Compiler).Overlong s :=
    (overlong_iff defaultClockPeriod_positive).2 (by decide +kernel)
  refine ⟨hs, by decide +kernel, hlong, ?_⟩
  have hempty : ∀ ch ∈ s.channels, ch.switches = [] := by decide +kernel
  have hevents : s.events = [] := List.eq_nil_iff_forall_not_mem.2 fun e he => by
    obtain ⟨ch, hch, ht⟩ := Sequence.mem_events.1 (show (e.1, e.2) ∈ s.events from he)
    rw [hempty ch (List.mem_of_getElem? hch)] at ht
    simp at ht
  refine ⟨_, compile_eq_ok.2 ⟨by decide +kernel, by simp [hevents], by decide +kernel, rfl⟩, ?_⟩
  rw [hevents]
  decide +kernel

end Compiler

end PulseSequencer
