import PulseSequencer.Proofs.Sequence.Invariant
import PulseSequencer.Proofs.Totality

/-!
Compilation on a machine.

Ticks are natural numbers, of which a difference below zero is zero, and a bit may be shifted out of
its word.  A machine stops at the first and goes wrong at the second.  `checkedInstructions` takes
each difference of ticks as a machine does, and it gives the instructions exactly if no wait ends
before it begins (`checkedInstructions_eq_some_iff`).  That is so for every sequence whose end does
not lie before its start, however far the times are beyond the ticks that can be counted:
`compile_panic_free`.
-/

namespace PulseSequencer

/-- A difference of naturals, if there is one. -/
def difference? (a b : Nat) : Option Nat := if b ≤ a then some (a - b) else none

theorem difference?_eq_some {a b n : Nat} : difference? a b = some n ↔ b ≤ a ∧ n = a - b := by
  unfold difference?
  by_cases h : b ≤ a
  · simp [h, eq_comm]
  · simp [h]

namespace Flip

/-- The instructions of flips with each difference of ticks checked. -/
def checkedInstructions (period now : Nat) (outputs : Word) :
    List Flip → Option (List Instruction)
  | [] => do return splitWait (← difference? period now) ++ [.jump 0]
  | ⟨tick, mask⟩ :: rest =>
    let next := outputs ^^^ mask
    if period ≤ tick then do return splitWait (← difference? period now) ++ [.jump 0]
    else if next = outputs then checkedInstructions period now outputs rest
    else do
      let gap ← difference? tick now
      return splitWait gap ++ .setOutputs next :: (← checkedInstructions period tick next rest)

/-- **The checks pass where the ticks are in order**, and then change nothing. -/
theorem checkedInstructions_eq_some_iff {period : Nat} {flips : List Flip} :
    ∀ {now : Nat} {outputs : Word} {code : List Instruction},
      checkedInstructions period now outputs flips = some code ↔
        Orderly period now outputs flips ∧ code = toInstructions period now outputs flips := by
  have ending : ∀ {now : Nat} {code : List Instruction},
      (do return splitWait (← difference? period now) ++ [.jump 0]) = some code ↔
        now ≤ period ∧ code = splitWait (period - now) ++ [.jump 0] := by
    intro now code
    simp only [Option.bind_eq_bind, Option.bind_eq_some_iff, difference?_eq_some, Option.pure_def,
      Option.some.injEq]
    constructor
    · rintro ⟨_, ⟨hle, rfl⟩, rfl⟩
      exact ⟨hle, rfl⟩
    · rintro ⟨hle, rfl⟩
      exact ⟨_, ⟨hle, rfl⟩, rfl⟩
  induction flips with
  | nil =>
    intro now outputs code
    exact ending
  | cons f rest ih =>
    obtain ⟨tick, mask⟩ := f
    intro now outputs code
    rw [checkedInstructions, Orderly, toInstructions]
    by_cases hend : period ≤ tick
    · simp only [if_pos hend]
      exact ending
    · by_cases hsame : outputs ^^^ mask = outputs
      · simp only [if_neg hend, if_pos hsame]
        exact ih
      · simp only [if_neg hend, if_neg hsame]
        simp only [Option.bind_eq_bind, Option.bind_eq_some_iff, difference?_eq_some, ih,
          Option.pure_def, Option.some.injEq]
        constructor
        · rintro ⟨_, ⟨hle, rfl⟩, _, ⟨hord, rfl⟩, rfl⟩
          exact ⟨⟨hle, hord⟩, rfl⟩
        · rintro ⟨⟨hle, hord⟩, rfl⟩
          exact ⟨_, ⟨hle, rfl⟩, _, ⟨hord, rfl⟩, rfl⟩

end Flip

namespace Compiler

/-- The instructions of a sequence over a period, with each difference of ticks checked. -/
def checkedCode (c : Compiler) (s : Sequence) (period : Nat) : Option (List Instruction) := do
  let flips ← (c.flips s).toOption
  let (idle, rest) := Flip.splitFirst s.defaultOutputs flips
  return .triggerWait idle :: (← Flip.checkedInstructions period 0 idle rest)

theorem checkedCode_of_compile {c : Compiler} (hd : c.dt.Positive) {s : Sequence}
    (hs : s.WellFormed) {p : Program} (h : c.compile s = .ok p) :
    c.checkedCode s p.periodTicks = some p.instructions := by
  obtain ⟨flips, hflips, hord⟩ := (inRange_of_compile hd hs h).waits
  have hcode := Flip.checkedInstructions_eq_some_iff.2 ⟨hord, rfl⟩
  obtain ⟨-, -, -, hp⟩ := compile_eq_ok.1 h
  obtain ⟨-, hmerge⟩ := flips_eq_ok.1 hflips
  rw [checkedCode, hflips]
  simp only [Except.toOption, Option.bind_eq_bind, Option.bind_some, hcode, Option.pure_def]
  rw [hp, hmerge]
  rfl

/-- Nothing goes wrong in a compilation: no assertion fails and the machine arithmetic stays in its
range. -/
structure PanicFree (c : Compiler) (s : Sequence) : Prop where
  /-- no switch has a tick before that of the start -/
  switches : ∀ ch ∈ s.channels, ∀ t ∈ ch.switches, c.quantize s.startTime ≤ c.quantize t
  /-- nor does the declared end -/
  declared : c.quantize s.startTime ≤ c.quantize (c.declaredEnd s)
  /-- the bit of a channel is shifted within the word -/
  shifts : ∀ i < s.nchannels, i < 32
  /-- there is a program, and no difference of ticks in it is negative, or the limit is exceeded -/
  outcome : (∃ p, c.compile s = .ok p ∧ c.checkedCode s p.periodTicks = some p.instructions) ∨
    ∃ r, c.compile s = .error (.invalid (.resourceLimit "program ticks" maxProgramTicks r))

/-- **Compilation does not panic**, if a duration is declared or the ends of the sequence are in
order. -/
theorem compile_panic_free {c : Compiler} (hc : c.Accepted) {s : Sequence} (hs : s.Reachable)
    (hord : c.duration ≠ none ∨ s.startTime ≤ s.stopTime) : c.PanicFree s := by
  have hw := hs.wellFormed
  have hend : s.startTime ≤ c.declaredEnd s :=
    startTime_le_declaredEnd hc hw fun hnone => hord.resolve_left fun h => h hnone
  refine ⟨fun ch hch t ht => ?_, ?_, fun i hi => ?_, ?_⟩
  · exact quantize_le_quantize hc.positive (hw.startTime_le hch ht)
  · exact quantize_le_quantize hc.positive hend
  · exact Nat.lt_of_lt_of_le hi (Nat.le_trans hw.width.2 (by decide))
  · rcases compile_total hc hw hend with ⟨p, hp⟩ | hlimit
    · exact .inl ⟨p, hp, checkedCode_of_compile hc.positive hw hp⟩
    · exact .inr hlimit

/-- The ends of a sequence are in the wrong order, its start is beyond the countable ticks, and with
the declared duration the end overflows. -/
theorem compile_panic_free_overflow :
    let pulse := Edit.addPulse 0 (.ofNat (10 ^ 308)) (.ofNat (10 ^ 300))
    let s := Sequence.run ⟨[Channel.resting false], Binary64.zero, Binary64.zero⟩
      [pulse, .setStart (.ofNat (10 ^ 308)), pulse]
    let c : Compiler := ⟨defaultClockPeriod, some (.ofNat (10 ^ 308))⟩
    c.Accepted ∧ s.Reachable ∧ c.duration ≠ none ∧ ¬ s.startTime ≤ s.stopTime ∧
      s.startTime / c.dt = .infinite false ∧ c.declaredEnd s = .infinite false ∧
      (∃ p, c.compile s = .ok p) ∧ c.PanicFree s := by
  intro pulse s c
  have hc : c.Accepted := .withDuration
    (.ofClockPeriod (ofClockPeriod_eq_ok.2 ⟨⟨by decide +kernel, by decide +kernel⟩, rfl⟩))
    (withDuration_eq_ok.2 ⟨⟨by decide +kernel, by decide +kernel⟩, rfl⟩)
  have hs : s.Reachable := Sequence.run_reachable (.ofCount (n := 1) rfl) _
  have hdur : c.duration ≠ none := Option.some_ne_none _
  exact ⟨hc, hs, hdur, by decide +kernel, by decide +kernel, by decide +kernel,
    exists_compile_iff.2 (by decide +kernel), compile_panic_free hc hs (.inl hdur)⟩

end Compiler

end PulseSequencer
