import PulseSequencer.Proofs.Totality

/-!
How long a program lasts.

A sequence says twice how long its program is: by the declared end (`declaredTicks`) and by its last
switch (`lastTick`).  The events are in order of time, and later times have later ticks, so the last
flip has the tick of the last switch, even if all that happens on that tick cancels out
(`lastTick_eq`).  The period is the larger of the two (`periodTicks_of_compile`), the instructions
take exactly the period (`ticks_of_compile`), and there is a warning where the switches go beyond
the declared end: `compile_measured`.
-/

namespace PulseSequencer

namespace Flip

theorem getLast?_ticks_merge (flips : List Flip) :
    ((merge flips).map tick).getLast? = (flips.map tick).getLast? := by
  induction flips with
  | nil => rfl
  | cons f rest ih =>
    cases rest with
    | nil => rfl
    | cons r rest =>
      rw [List.map_cons (l := r :: rest), List.map_cons, List.getLast?_cons_cons, ← List.map_cons,
        ← ih, merge]
      cases hm : merge (r :: rest) with
      | nil => simp [hm, List.getLast?_cons] at ih
      | cons g others =>
        dsimp only
        by_cases heq : f.tick = g.tick
        · rw [if_pos heq, List.map_cons, List.map_cons, heq]
        · rw [if_neg heq, List.map_cons, List.map_cons, List.getLast?_cons_cons]

theorem ticks_toInstructions {period now : Nat} {flips : List Flip} (hasc : Ascending flips)
    (hnow : ∀ f ∈ flips, now < f.tick) (hle : now ≤ period) (outputs : Word) :
    Player.ticks (toInstructions period now outputs flips) = period - now := by
  rw [← Player.held_length outputs, held_toInstructions hasc outputs hnow hle]
  simp

end Flip

namespace Compiler

/-! ## Ticks of a sequence -/

/-- The clock ticks from the start of a sequence to a time, negative before the start. -/
def ticksTo (c : Compiler) (s : Sequence) (t : Binary64) : Int :=
  c.quantize t - c.quantize s.startTime

/-- The ticks of all switches of all channels, also of those that cancel on their tick. -/
def switchTicks (c : Compiler) (s : Sequence) : List Int :=
  s.channels.flatMap fun ch => ch.switches.map (c.ticksTo s)

/-- The ticks that a program is declared to last. -/
def declaredTicks (c : Compiler) (s : Sequence) : Int := c.ticksTo s (c.declaredEnd s)

/-- The tick of the last switch; zero if there is no switch. -/
def lastTick (c : Compiler) (s : Sequence) : Int := (c.switchTicks s).max?.getD 0

theorem mem_switchTicks {c : Compiler} {s : Sequence} {k : Int} :
    k ∈ c.switchTicks s ↔ ∃ ch ∈ s.channels, ∃ t ∈ ch.switches, c.ticksTo s t = k := by
  simp only [switchTicks, List.mem_flatMap, List.mem_map]

theorem mem_switchTicks_iff_event {c : Compiler} {s : Sequence} {k : Int} :
    k ∈ c.switchTicks s ↔ ∃ e ∈ s.events, c.ticksTo s e.1 = k := by
  rw [mem_switchTicks]
  constructor
  · rintro ⟨ch, hch, t, ht, hk⟩
    obtain ⟨i, hi⟩ := List.mem_iff_getElem?.1 hch
    exact ⟨(t, i), Sequence.mem_events.2 ⟨ch, hi, ht⟩, hk⟩
  · rintro ⟨⟨t, i⟩, he, hk⟩
    obtain ⟨ch, hi, ht⟩ := Sequence.mem_events.1 he
    exact ⟨ch, List.mem_of_getElem? hi, t, ht, hk⟩

theorem lastTick_le_iff {c : Compiler} {s : Sequence} {k : Int} (hk : 0 ≤ k) :
    c.lastTick s ≤ k ↔ ∀ j ∈ c.switchTicks s, j ≤ k := by
  unfold lastTick
  cases hmax : (c.switchTicks s).max? with
  | none =>
    rw [List.max?_eq_none_iff] at hmax
    simp [hmax, hk]
  | some m =>
    obtain ⟨hm, hle⟩ := List.max?_eq_some_iff.1 hmax
    rw [Option.getD_some]
    constructor
    · intro h j hj
      exact Int.le_trans (hle j hj) h
    · intro h
      exact h m hm

theorem lastTick_nonneg {c : Compiler} {s : Sequence} (h : ∀ j ∈ c.switchTicks s, 0 ≤ j) :
    0 ≤ c.lastTick s := by
  unfold lastTick
  cases hmax : (c.switchTicks s).max? with
  | none => exact Int.le_refl 0
  | some m => exact h m (List.max?_eq_some_iff.1 hmax).1

/-- **The last event has the last tick.** -/
theorem lastTick_eq {c : Compiler} (hd : c.dt.Positive) {s : Sequence} (hs : s.WellFormed) :
    (s.events.getLast?.map fun e => c.ticksTo s e.1).getD 0 = c.lastTick s := by
  unfold lastTick
  cases hlast : s.events.getLast? with
  | none =>
    have hnone : c.switchTicks s = [] := by
      rw [List.eq_nil_iff_forall_not_mem]
      intro k hk
      obtain ⟨e, he, -⟩ := mem_switchTicks_iff_event.1 hk
      rw [List.getLast?_eq_none_iff.1 hlast] at he
      simp at he
    rw [List.max?_eq_none_iff.2 hnone]
    rfl
  | some e =>
    obtain ⟨init, hinit⟩ := List.getLast?_eq_some_iff.1 hlast
    have hsorted := hs.events_sorted
    rw [hinit] at hsorted
    have hmax : (c.switchTicks s).max? = some (c.ticksTo s e.1) := by
      rw [List.max?_eq_some_iff]
      refine ⟨mem_switchTicks_iff_event.2 ⟨e, List.mem_of_getLast? hlast, rfl⟩, ?_⟩
      intro k hk
      obtain ⟨e', he', rfl⟩ := mem_switchTicks_iff_event.1 hk
      rw [hinit, List.mem_append, List.mem_singleton] at he'
      rcases he' with he' | rfl
      · have hle := (List.pairwise_append.1 hsorted).2.2 e' he' e (by simp)
        have := quantize_le_quantize hd hle
        unfold ticksTo
        omega
      · exact Int.le_refl _
    rw [hmax]
    rfl

theorem getLast?_flips {c : Compiler} (hd : c.dt.Positive) {s : Sequence} (hs : s.WellFormed) :
    ((Flip.merge (s.events.map (c.eventFlip s))).getLast?.map Flip.tick).getD 0 =
      (c.lastTick s).toNat := by
  rw [← List.getLast?_map, Flip.getLast?_ticks_merge, List.map_map, List.getLast?_map,
    ← lastTick_eq hd hs]
  cases s.events.getLast? with
  | none => rfl
  | some e => rfl

theorem switchTicks_le_declaredTicks {c : Compiler} (hd : c.dt.Positive) (hdur : c.duration = none)
    {s : Sequence} (hs : s.WellFormed) : ∀ k ∈ c.switchTicks s, k ≤ c.declaredTicks s := by
  intro k hk
  obtain ⟨ch, hch, t, ht, rfl⟩ := mem_switchTicks.1 hk
  have := quantize_le_quantize hd (hs.le_stopTime hch ht)
  simp only [declaredTicks, declaredEnd, hdur, ticksTo]
  omega

/-! ## The program -/

section
variable {c : Compiler} {s : Sequence} {p : Program} (h : c.compile s = .ok p)
include h

theorem declaredTicks_within : 0 ≤ c.declaredTicks s ∧ c.declaredTicks s ≤ maxProgramTicks :=
  (compile_eq_ok.1 h).2.2.1

theorem lastTick_within : 0 ≤ c.lastTick s ∧ c.lastTick s ≤ maxProgramTicks := by
  have hwithin : ∀ k ∈ c.switchTicks s, 0 ≤ k ∧ k ≤ maxProgramTicks := by
    intro k hk
    obtain ⟨e, he, rfl⟩ := mem_switchTicks_iff_event.1 hk
    exact (compile_eq_ok.1 h).2.1 e he
  exact ⟨lastTick_nonneg fun k hk => (hwithin k hk).1,
    (lastTick_le_iff (Int.natCast_nonneg _)).2 fun k hk => (hwithin k hk).2⟩

variable (hd : c.dt.Positive) (hs : s.WellFormed)
include hd hs

/-- **The period** reaches to the declared end or to the last switch, whichever is later. -/
theorem periodTicks_of_compile :
    (p.periodTicks : Int) = max (c.declaredTicks s) (c.lastTick s) := by
  have hdeclared := declaredTicks_within h
  have hlast := lastTick_within h
  obtain ⟨-, -, -, rfl⟩ := compile_eq_ok.1 h
  show ((max (c.declaredTicks s).toNat _ : Nat) : Int) = _
  rw [getLast?_flips hd hs]
  omega

/-- **The warnings** name both, if the last switch is the later one. -/
theorem warnings_of_compile : p.warnings =
    if c.declaredTicks s < c.lastTick s then
      [.durationExceeded (c.declaredTicks s).toNat (c.lastTick s).toNat]
    else [] := by
  have hdeclared := declaredTicks_within h
  obtain ⟨-, -, -, rfl⟩ := compile_eq_ok.1 h
  show (if (c.declaredTicks s).toNat < _ then [Warning.durationExceeded (c.declaredTicks s).toNat _]
    else []) = _
  rw [getLast?_flips hd hs]
  by_cases hlt : c.declaredTicks s < c.lastTick s
  · rw [if_pos hlt, if_pos (by omega)]
  · rw [if_neg hlt, if_neg (by omega)]

/-- **The instructions take exactly the period.** -/
theorem ticks_of_compile : Player.ticks p.instructions = p.periodTicks := by
  obtain ⟨flips, hasc, hpos, hcode, -⟩ := compile_flips hd hs h
  rw [hcode, Player.ticks, Flip.ticks_toInstructions hasc hpos (Nat.zero_le _)]
  simp [Instruction.elapsed]

end

/-- The length of a program and what is said about it. -/
structure Measured (c : Compiler) (s : Sequence) (p : Program) : Prop where
  /-- it lasts to the declared end or to the last switch, whichever is later -/
  period : (p.periodTicks : Int) = max (c.declaredTicks s) (c.lastTick s)
  /-- the instructions take just as long -/
  elapsed : Player.ticks p.instructions = p.periodTicks
  limit : p.periodTicks ≤ maxProgramTicks
  /-- switches beyond the declared end are reported with both numbers of ticks -/
  warned : c.declaredTicks s < c.lastTick s → ∃ declared actual : Nat,
    (declared : Int) = c.declaredTicks s ∧ (actual : Int) = c.lastTick s ∧
      p.warnings = [.durationExceeded declared actual]
  silent : c.lastTick s ≤ c.declaredTicks s → p.warnings = []
  /-- without a declared duration there are none -/
  undeclared : c.duration = none → p.warnings = []

/-- **The length of a compiled program.** -/
theorem compile_measured {c : Compiler} (hc : c.Accepted) {s : Sequence} (hs : s.Reachable)
    {p : Program} (h : c.compile s = .ok p) : c.Measured s p := by
  have hw := hs.wellFormed
  have hdeclared := declaredTicks_within h
  have hlast := lastTick_within h
  have hperiod := periodTicks_of_compile h hc.positive hw
  have hwarnings := warnings_of_compile h hc.positive hw
  have hsilent : c.lastTick s ≤ c.declaredTicks s → p.warnings = [] := by
    intro hle
    rw [hwarnings, if_neg (Int.not_lt.2 hle)]
  refine ⟨hperiod, ticks_of_compile h hc.positive hw, by omega, ?_, hsilent, ?_⟩
  · intro hlt
    refine ⟨(c.declaredTicks s).toNat, (c.lastTick s).toNat, ?_, ?_, ?_⟩
    · exact Int.toNat_of_nonneg hdeclared.1
    · exact Int.toNat_of_nonneg hlast.1
    · rw [hwarnings, if_pos hlt]
  · intro hdur
    have hle := switchTicks_le_declaredTicks hc.positive hdur hw
    exact hsilent ((lastTick_le_iff hdeclared.1).2 hle)

/-- Two switches beyond the declared end cancel on their tick; the program lasts up to it. -/
theorem compile_measured_cancelled :
    let s := [Edit.addPulse 0 (.ofNat 1) (.ofNat 2),
        .addPulse 1 (.ofRatio false 72 10) (.ofRatio false 5 10)].foldl Sequence.attempt
      ⟨[Channel.resting false, Channel.resting true], Binary64.zero, Binary64.zero⟩
    let c : Compiler := ⟨.ofNat 1, some (.ofNat 4)⟩
    c.Accepted ∧ s.Reachable ∧ c.declaredTicks s = 4 ∧ c.switchTicks s = [1, 3, 7, 7] ∧
      ∃ p, c.compile s = .ok p ∧ c.Measured s p ∧ p.periodTicks = 7 ∧
        p.warnings = [.durationExceeded 4 7] := by
  intro s c
  have hc : c.Accepted := .withDuration
    (.ofClockPeriod (ofClockPeriod_eq_ok.2 ⟨⟨by decide +kernel, by decide +kernel⟩, rfl⟩))
    (withDuration_eq_ok.2 ⟨⟨by decide +kernel, by decide +kernel⟩, rfl⟩)
  have hs : s.Reachable :=
    .attempt _ (.attempt _ (@Sequence.Reachable.withDefaults [false, true] _ rfl))
  have hdeclared : c.declaredTicks s = 4 := by decide +kernel
  have hticks : c.switchTicks s = [1, 3, 7, 7] := by decide +kernel
  have hlast : c.lastTick s = 7 := by
    rw [lastTick, hticks]
    rfl
  obtain ⟨p, hp⟩ : ∃ p, c.compile s = .ok p := exists_compile_iff.2 (by decide +kernel)
  have hmeasured := compile_measured hc hs hp
  obtain ⟨declared, actual, hd, ha, hwarnings⟩ :=
    hmeasured.warned (by rw [hdeclared, hlast]; decide)
  have hperiod := hmeasured.period
  rw [hdeclared] at hd hperiod
  rw [hlast] at ha hperiod
  obtain rfl : declared = 4 := by omega
  obtain rfl : actual = 7 := by omega
  exact ⟨hc, hs, hdeclared, hticks, p, hp, hmeasured, by omega, hwarnings⟩

end Compiler

end PulseSequencer
