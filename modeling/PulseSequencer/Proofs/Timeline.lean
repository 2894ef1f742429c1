import PulseSequencer.Proofs.Compile

/-!
A program plays the timeline of its sequence.

Every loop of a compiled program holds the outputs of the sequence's ticks, one after another, for
the whole period (`loop_compile_iff`).  Read bit by bit, that is the timeline of each channel:
`compile_plays`.
-/

namespace PulseSequencer
namespace Compiler

theorem head_compile {c : Compiler} (hd : c.dt.Positive) {s : Sequence} (hs : s.WellFormed)
    {p : Program} (h : c.compile s = .ok p) :
    p.instructions.head? = some (.triggerWait (c.outputsAt s 0)) := by
  obtain ⟨flips, -, -, hcode, -⟩ := compile_flips hd hs h
  rw [hcode, List.head?_cons]

/-- **The loops of a compiled program** are all the same: the outputs of the ticks of the
sequence, as many as the period has. -/
theorem loop_compile_iff {c : Compiler} (hd : c.dt.Positive) {s : Sequence} (hs : s.WellFormed)
    {p : Program} (h : c.compile s = .ok p) (n : Nat) (held : List Word) :
    Player.Loop p.instructions n held ↔
      held = (List.range p.periodTicks).map (c.outputsAt s) := by
  obtain ⟨flips, hasc, hpos, hcode, hwave⟩ := compile_flips hd hs h
  obtain ⟨body, hbody, hon⟩ :=
    Flip.toInstructions_straight p.periodTicks 0 (c.outputsAt s 0) flips
  have hplay : Player.held (c.outputsAt s 0) body =
      (List.range p.periodTicks).map (c.outputsAt s) := by
    have hheld := Flip.held_toInstructions hasc (c.outputsAt s 0) hpos (Nat.zero_le p.periodTicks)
    simp only [hbody, Player.held_append, Player.held, Instruction.elapsed, List.replicate_zero,
      List.append_nil, hwave, Nat.sub_zero, ← List.range_eq_range'] at hheld
    exact hheld
  rw [hbody] at hcode
  rw [Player.loop_of_straight hcode hon, hplay]

/-- A program plays the timeline of a sequence. -/
structure Plays (c : Compiler) (s : Sequence) (p : Program) : Prop where
  /-- the outputs that wait for the trigger have the switches at the first tick behind them -/
  idle : ∃ w, p.instructions.head? = some (.triggerWait w) ∧
    ∀ i ch, s.channels[i]? = some ch → w.getLsbD i =
      (ch.default ^^ (ch.switches.countP fun t =>
        decide (c.quantize t - c.quantize s.startTime = 0)) % 2 == 1)
  /-- the loops go on without end -/
  goes : ∀ n, ∃ held, Player.Loop p.instructions n held
  /-- each takes the period -/
  lasts : ∀ n held, Player.Loop p.instructions n held → held.length = p.periodTicks
  /-- and in each tick every channel has its level -/
  levels : ∀ n held, Player.Loop p.instructions n held → ∀ k w, held[k]? = some w →
    ∀ i ch, s.channels[i]? = some ch → w.getLsbD i = c.level s ch k

/-- No switch of a compiled sequence lies before the first tick, so those up to it are those
at it. -/
theorem level_zero {c : Compiler} {s : Sequence} {p : Program} (h : c.compile s = .ok p) {i : Nat}
    {ch : Channel} (hc : s.channels[i]? = some ch) : c.level s ch 0 =
      (ch.default ^^ (ch.switches.countP fun t =>
        decide (c.quantize t - c.quantize s.startTime = 0)) % 2 == 1) := by
  obtain ⟨-, hwithin, -⟩ := exists_compile_iff.1 ⟨p, h⟩
  rw [level]
  congr 3
  refine List.countP_congr fun t ht => ?_
  have := (hwithin ch (List.mem_of_getElem? hc) t ht).1
  simp only [decide_eq_true_eq]
  omega

/-- **Compilation preserves the timeline.** -/
theorem compile_plays {c : Compiler} (hc : c.Accepted) {s : Sequence} (hs : s.Reachable)
    {p : Program} (h : c.compile s = .ok p) : c.Plays s p where
  idle := by
    refine ⟨_, head_compile hc.positive hs.wellFormed h, fun i ch hi => ?_⟩
    rw [getLsbD_outputsAt (compile_eq_ok.1 h).1 hi, level_zero h hi]
  goes n := ⟨_, (loop_compile_iff hc.positive hs.wellFormed h n _).2 rfl⟩
  lasts n held hloop := by
    rw [(loop_compile_iff hc.positive hs.wellFormed h n held).1 hloop]
    simp
  levels n held hloop k w hk i ch hi := by
    rw [(loop_compile_iff hc.positive hs.wellFormed h n held).1 hloop] at hk
    rw [List.getElem?_map] at hk
    obtain ⟨j, hj, rfl⟩ := Option.map_eq_some_iff.1 hk
    obtain ⟨-, rfl⟩ := List.getElem?_eq_some_iff.1 hj
    rw [List.getElem_range, getLsbD_outputsAt (compile_eq_ok.1 h).1 hi]

/-- Rounding brings switches of two channels to one tick, one of them past the declared end. -/
theorem compile_plays_rounded :
    let s := [Edit.addPulse 0 (.ofRatio false 3 10) (.ofRatio false 4 10),
        .addPulse 1 (.ofRatio false 1 10) (.ofRatio false 2 10),
        .setStart (.ofRatio true 1 10)].foldl Sequence.attempt
      ⟨[Channel.resting false, Channel.resting true], Binary64.zero, Binary64.zero⟩
    let c : Compiler := ⟨.ofRatio false 1 10, some (.ofRatio false 5 10)⟩
    c.Accepted ∧ s.Reachable ∧
      s.channels.map (c.level s · 3) = [false, false] ∧
      s.channels.map (c.level s · 4) = [true, true] ∧
      ∃ p, c.compile s = .ok p ∧ c.Plays s p := by
  intro s c
  have hc : c.Accepted := .withDuration
    (.ofClockPeriod (ofClockPeriod_eq_ok.2 ⟨⟨by decide +kernel, by decide +kernel⟩, rfl⟩))
    (withDuration_eq_ok.2 ⟨⟨by decide +kernel, by decide +kernel⟩, rfl⟩)
  have hs : s.Reachable :=
    .attempt _ (.attempt _ (.attempt _ (@Sequence.Reachable.withDefaults [false, true] _ rfl)))
  obtain ⟨p, hp⟩ : ∃ p, c.compile s = .ok p := exists_compile_iff.2 (by decide +kernel)
  exact ⟨hc, hs, by decide +kernel, by decide +kernel, p, hp, compile_plays hc hs hp⟩

end Compiler
end PulseSequencer
