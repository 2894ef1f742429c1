import Mathlib.Data.List.Dedup
import Mathlib.Data.List.Perm.Subperm
import PulseSequencer.Proofs.Period

/-!
How many instructions a program has.

Each stretch between two changes of the outputs is filled with waits of its own, and the last of
them need not be full.  Rounding up the waits of two stretches gives at most one more than rounding
up those of both together (`waits_add_waits_le`), so beside the waits of the whole period each
change costs two instructions at most: itself and a wait (`length_toInstructions_le`).  And there is
at most one change on each tick that has a switch (`setCount_le_distinct`).
-/

namespace PulseSequencer

theorem waits_add_waits_le (a b : Nat) :
    (splitWait a).length + (splitWait b).length ≤ (splitWait (a + b)).length + 1 := by
  have hmax : maxWaitTicks = 2 ^ 24 - 1 := by decide
  rw [length_splitWait, length_splitWait, length_splitWait, hmax]
  omega

theorem waits_mono {a b : Nat} (h : a ≤ b) : (splitWait a).length ≤ (splitWait b).length := by
  rw [length_splitWait, length_splitWait]
  exact Nat.div_le_div_right (by omega)

/-- The instruction changes the outputs. -/
def Instruction.setsOutputs : Instruction → Bool
  | .setOutputs _ => true
  | _ => false

/-- The number of instructions of a program that change the outputs. -/
def Program.setCount (p : Program) : Nat := p.instructions.countP Instruction.setsOutputs

theorem countP_splitWait (ticks : Nat) : (splitWait ticks).countP Instruction.setsOutputs = 0 := by
  rw [List.countP_eq_zero]
  intro i hi
  obtain ⟨n, rfl⟩ := eq_wait_of_mem_splitWait hi
  simp [Instruction.setsOutputs]

namespace Flip

/-- **The instructions of flips**: the waits of the time left and the jump, and for each change
itself and one more wait. -/
theorem length_toInstructions_le (period : Nat) {flips : List Flip} (hasc : Ascending flips) :
    ∀ {now : Nat} (outputs : Word), (∀ f ∈ flips, now < f.tick) →
      (toInstructions period now outputs flips).length ≤ (splitWait (period - now)).length + 1 +
        2 * (toInstructions period now outputs flips).countP Instruction.setsOutputs := by
  induction flips with
  | nil =>
    intro now outputs _
    simp [toInstructions]
  | cons f rest ih =>
    obtain ⟨tick, mask⟩ := f
    obtain ⟨hlater, hrest⟩ := List.pairwise_cons.1 hasc
    intro now outputs hnow
    have htick : now < tick := hnow ⟨tick, mask⟩ (by simp)
    simp only [toInstructions]
    split
    · simp
    · rename_i hin
      split
      · exact ih hrest outputs fun g hg => Nat.lt_trans htick (hlater g hg)
      · have ih := ih hrest (outputs ^^^ mask) hlater
        dsimp only at ih
        have hsum := waits_add_waits_le (tick - now) (period - tick)
        rw [show tick - now + (period - tick) = period - now by omega] at hsum
        rw [List.length_append, List.length_cons, List.countP_append, countP_splitWait,
          List.countP_cons_of_pos (by rfl)]
        omega

theorem countP_toInstructions_le (period now : Nat) (outputs : Word) (flips : List Flip) :
    (toInstructions period now outputs flips).countP Instruction.setsOutputs ≤ flips.length := by
  have ending : ∀ ticks,
      (splitWait ticks ++ [Instruction.jump 0]).countP Instruction.setsOutputs = 0 := by
    intro ticks
    rw [List.countP_append, countP_splitWait]
    rfl
  induction flips generalizing now outputs with
  | nil => exact Nat.le_of_eq (ending _)
  | cons f rest ih =>
    obtain ⟨tick, mask⟩ := f
    simp only [toInstructions]
    split
    · rw [ending]
      exact Nat.zero_le _
    · split
      · exact Nat.le_succ_of_le (ih now outputs)
      · rw [List.countP_append, countP_splitWait, List.countP_cons_of_pos (by rfl), Nat.zero_add]
        exact Nat.succ_le_succ (ih tick _)

theorem mem_of_mem_splitFirst {outputs : Word} {flips : List Flip} {f : Flip}
    (h : f ∈ (splitFirst outputs flips).2) : f ∈ flips := by
  unfold splitFirst at h
  split at h
  · exact List.mem_cons_of_mem _ h
  · exact h

theorem Ascending.length_le {flips : List Flip} (hasc : Ascending flips) {ticks : List Int}
    (h : ∀ f ∈ flips, (f.tick : Int) ∈ ticks) : flips.length ≤ ticks.dedup.length := by
  have hnodup : (flips.map fun f => (f.tick : Int)).Nodup := by
    unfold List.Nodup
    rw [List.pairwise_map]
    exact hasc.imp fun {f g} hfg => by omega
  have hsub : (flips.map fun f => (f.tick : Int)) ⊆ ticks.dedup := by
    intro k hk
    obtain ⟨f, hf, rfl⟩ := List.mem_map.1 hk
    exact List.mem_dedup.2 (h f hf)
  have hle := (hnodup.subperm hsub).length_le
  rwa [List.length_map] at hle

end Flip

namespace Compiler

section
variable {c : Compiler} {s : Sequence} {p : Program} (hd : c.dt.Positive) (hs : s.WellFormed)
  (h : c.compile s = .ok p)
include hd hs h

/-- A program has as many instructions as the waits of its period, the trigger and the jump, and
two for each change of the outputs. -/
theorem length_of_compile :
    p.instructions.length ≤ (splitWait p.periodTicks).length + 2 + 2 * p.setCount := by
  obtain ⟨flips, hasc, hpos, hcode, -⟩ := compile_flips hd hs h
  have hle := Flip.length_toInstructions_le p.periodTicks hasc (c.outputsAt s 0) hpos
  rw [Nat.sub_zero] at hle
  rw [Program.setCount, hcode, List.length_cons,
    List.countP_cons_of_neg (by simp [Instruction.setsOutputs])]
  omega

/-- **Each tick with switches has one change at most.** -/
theorem setCount_le_distinct : p.setCount ≤ (c.switchTicks s).dedup.length := by
  obtain ⟨-, hwithin, -, rfl⟩ := compile_eq_ok.1 h
  have hasc := Flip.merge_ascending (eventFlip_sorted hd hs)
  obtain ⟨hfirst, -, -⟩ := Flip.splitFirst_spec hasc s.defaultOutputs
  refine Nat.le_trans (Flip.countP_toInstructions_le _ _ _ _) (hfirst.length_le fun f hf => ?_)
  obtain ⟨g, hg, htick⟩ := Flip.tick_of_mem_merge (Flip.mem_of_mem_splitFirst hf)
  obtain ⟨e, he, rfl⟩ := List.mem_map.1 hg
  refine mem_switchTicks_iff_event.2 ⟨e, he, ?_⟩
  rw [← htick]
  exact (Int.toNat_of_nonneg (hwithin e he).1).symm

end

theorem distinct_le_switches (c : Compiler) (s : Sequence) :
    (c.switchTicks s).dedup.length ≤ (s.channels.flatMap Channel.switches).length := by
  have hmap : c.switchTicks s = (s.channels.flatMap Channel.switches).map (c.ticksTo s) :=
    List.map_flatMap.symm
  have hle := (List.dedup_sublist (c.switchTicks s)).length_le
  rwa [hmap, List.length_map, ← hmap] at hle

/-- **The size of a compiled program**: the waits of the longest period, the trigger and the jump,
and two instructions for each change, however the switches are spread. -/
theorem compile_small {c : Compiler} (hc : c.Accepted) {s : Sequence} (hs : s.Reachable)
    {p : Program} (h : c.compile s = .ok p) :
    p.instructions.length ≤ 2 ^ 20 + 2 + 2 * p.setCount ∧
      p.setCount ≤ (c.switchTicks s).dedup.length ∧
      p.instructions.length ≤ 2 ^ 20 + 2 + 2 * (s.channels.flatMap Channel.switches).length := by
  have hlength := length_of_compile hc.positive hs.wellFormed h
  have hset := setCount_le_distinct hc.positive hs.wellFormed h
  have hdistinct := distinct_le_switches c s
  have hwaits : (splitWait p.periodTicks).length ≤ 2 ^ 20 := by
    refine Nat.le_trans (waits_mono (compile_measured hc hs h).limit) ?_
    rw [length_splitWait]
    decide
  exact ⟨by omega, hset, by omega⟩

/-- One switch on the first tick of the longest program reaches the bound: there is a short wait
before it and no fewer waits after it. -/
theorem compile_small_reached :
    let s := [Edit.switch 0 (.ofNat 1), .setStop (.ofNat (2 ^ 44))].foldl Sequence.attempt
      ⟨[Channel.resting false], Binary64.zero, Binary64.zero⟩
    let c : Compiler := ⟨.one, none⟩
    c.Accepted ∧ s.Reachable ∧ (s.channels.flatMap Channel.switches).length = 1 ∧
      ∃ p, c.compile s = .ok p ∧ p.setCount ≤ (c.switchTicks s).dedup.length ∧
        p.setCount = 1 ∧ p.instructions.length = 2 ^ 20 + 2 + 2 * 1 := by
  intro s c
  have hc : c.Accepted :=
    .ofClockPeriod (ofClockPeriod_eq_ok.2 ⟨⟨by decide +kernel, by decide +kernel⟩, rfl⟩)
  have hs : s.Reachable :=
    .attempt _ (.attempt _ (@Sequence.Reachable.withDefaults [false] _ rfl))
  obtain ⟨p, hp⟩ : ∃ p, c.compile s = .ok p := exists_compile_iff.2 (by decide +kernel)
  have hcode : p.instructions = .triggerWait 0#32 ::
      (splitWait 1 ++ .setOutputs 1#32 :: (splitWait (2 ^ 44 - 1) ++ [.jump 0])) := by
    obtain ⟨-, -, -, rfl⟩ := compile_eq_ok.1 hp
    have hflips : Flip.merge (s.events.map (c.eventFlip s)) = [⟨1, 1#32⟩] := by decide +kernel
    have hend : (c.quantize (c.declaredEnd s) - c.quantize s.startTime).toNat = 2 ^ 44 := by
      decide +kernel
    have hidle : s.defaultOutputs = 0#32 := by decide +kernel
    simp only [programOf, hflips, hend, hidle, Flip.splitFirst, List.getLast?_singleton,
      Option.map_some, Option.getD_some, Flip.toInstructions]
    rw [Nat.max_eq_left (by decide), if_neg (by decide), if_neg (by decide), BitVec.zero_xor,
      Nat.sub_zero]
  obtain ⟨-, hset, -⟩ := compile_small hc hs hp
  refine ⟨hc, hs, by decide +kernel, p, hp, hset, ?_, ?_⟩
  · rw [Program.setCount, hcode, List.countP_cons_of_neg (by decide), List.countP_append,
      countP_splitWait, List.countP_cons_of_pos (by rfl), List.countP_append, countP_splitWait]
    rfl
  · have hbefore : (splitWait 1).length = 1 := length_splitWait 1
    have hafter : (splitWait (2 ^ 44 - 1)).length = 2 ^ 20 := by
      rw [length_splitWait]
      decide
    rw [hcode, List.length_cons, List.length_append, hbefore, List.length_cons, List.length_append,
      hafter]
    rfl

end Compiler
end PulseSequencer
