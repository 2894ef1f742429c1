import PulseSequencer.Proofs.Compile

/-!
Compilation fails by the limit only.

A sequence has its switches after its start, and later times have later ticks, so no switch counts
as a tick before the first one.  Neither does the declared end, if it does not lie before the start:
an accepted duration leads no further back, even if the sum is infinite.  Such a sequence has a
program or is refused for its length (`compile_total`), and in making the program no difference of
ticks is negative and no bit lies beyond the word (`inRange_of_compile`).
-/

namespace PulseSequencer

namespace Flip

/-- No wait in the instructions of flips ends before it begins: the differences of ticks that
`toInstructions` takes are of numbers in order. -/
def Orderly (period now : Nat) (outputs : Word) : List Flip → Prop
  | [] => now ≤ period
  | ⟨tick, mask⟩ :: rest =>
    if period ≤ tick then now ≤ period
    else if outputs ^^^ mask = outputs then Orderly period now outputs rest
    else now ≤ tick ∧ Orderly period tick (outputs ^^^ mask) rest

theorem orderly_of_ascending {period : Nat} {flips : List Flip} (hasc : Ascending flips) :
    ∀ {now : Nat} {outputs : Word}, (∀ f ∈ flips, now ≤ f.tick) → now ≤ period →
      Orderly period now outputs flips := by
  induction flips with
  | nil =>
    intro now outputs _ hle
    exact hle
  | cons f rest ih =>
    obtain ⟨tick, mask⟩ := f
    obtain ⟨hfirst, hrest⟩ := List.pairwise_cons.1 hasc
    intro now outputs hnow hle
    obtain ⟨htick, hlater⟩ := List.forall_mem_cons.1 hnow
    rw [Orderly]
    split
    · exact hle
    · rename_i hin
      split
      · exact ih hrest hlater hle
      · exact ⟨htick, ih hrest (fun g hg => Nat.le_of_lt (hfirst g hg)) (by omega)⟩

end Flip

namespace Compiler

/-- The machine arithmetic that makes a program stays in its range. -/
structure InRange (c : Compiler) (s : Sequence) (p : Program) : Prop where
  /-- each channel has a bit in the word -/
  bits : s.nchannels ≤ 32
  waits : ∃ flips, c.flips s = .ok flips ∧
    Flip.Orderly p.periodTicks 0 (Flip.splitFirst s.defaultOutputs flips).1
      (Flip.splitFirst s.defaultOutputs flips).2

theorem inRange_of_compile {c : Compiler} (hd : c.dt.Positive) {s : Sequence} (hs : s.WellFormed)
    {p : Program} (h : c.compile s = .ok p) : c.InRange s p where
  bits := Nat.le_trans hs.width.2 (by decide)
  waits := by
    obtain ⟨-, hwithin, -, -⟩ := compile_eq_ok.1 h
    refine ⟨_, flips_eq_ok.2 ⟨hwithin, rfl⟩, ?_⟩
    obtain ⟨hasc, -, -⟩ :=
      Flip.splitFirst_spec (Flip.merge_ascending (eventFlip_sorted hd hs)) s.defaultOutputs
    exact Flip.orderly_of_ascending hasc (fun f _ => Nat.zero_le _) (Nat.zero_le _)

section
variable {c : Compiler} (hc : c.Accepted) {s : Sequence} (hs : s.WellFormed)
include hc hs

/-- The declared end does not lie before the start: an accepted duration is not negative, and
without one the end is the stop of the sequence. -/
theorem startTime_le_declaredEnd (hord : c.duration = none → s.startTime ≤ s.stopTime) :
    s.startTime ≤ c.declaredEnd s := by
  unfold declaredEnd
  cases hdur : c.duration with
  | none => exact hord hdur
  | some d =>
    obtain ⟨hfin, hneg⟩ := hc.duration_ok hdur
    exact Binary64.le_add hs.startTime_isFinite hfin hneg

theorem quantize_nonneg (hend : s.startTime ≤ c.declaredEnd s) {t : Binary64}
    (ht : (∃ ch ∈ s.channels, t ∈ ch.switches) ∨ t = c.declaredEnd s) :
    0 ≤ c.quantize t - c.quantize s.startTime := by
  have hle : s.startTime ≤ t := by
    rcases ht with ⟨ch, hch, ht⟩ | rfl
    · exact hs.startTime_le hch ht
    · exact hend
  have := quantize_le_quantize hc.positive hle
  omega

/-- **A sequence has a program or is too long**, if its end does not lie before its start. -/
theorem compile_total (hend : s.startTime ≤ c.declaredEnd s) : (∃ p, c.compile s = .ok p) ∨
    ∃ r, c.compile s = .error (.invalid (.resourceLimit "program ticks" maxProgramTicks r)) := by
  cases h : c.compile s with
  | ok p => exact .inl ⟨p, rfl⟩
  | error e =>
    obtain ⟨t, ht, hfail⟩ := compile_eq_error hs.width.2 h
    exact .inr ⟨_, by rw [offset_eq_error (quantize_nonneg hc hs hend ht) hfail]⟩

end

end Compiler

end PulseSequencer
