import PulseSequencer.Proofs.Interchange

/-!
Default levels and pulses over a whole sequence.

A switch at the start of a sequence and one at its stop invert a channel from the first tick of the
program to its end, and so does the other default.  In the program the first switch is part of the
outputs that wait for the trigger and the second has no room: it lies on the tick where the loop
starts again.  Either switch may meet one that is there, on any channel, and cancel it.  As long as
the ends of the sequence stay where they are, both ways give one result: `compile_covered`.
-/

namespace PulseSequencer

namespace Sequence

/-- A channel inverted from the start of a sequence to its stop by two more switches. -/
def covered (s : Sequence) (i : Nat) : Sequence :=
  { s with
    channels := s.channels.modify i fun ch => (ch.addSwitch s.startTime).addSwitch s.stopTime }

/-- A channel inverted by its default. -/
def inverted (s : Sequence) (i : Nat) : Sequence :=
  { s with channels := s.channels.modify i fun ch => ch.withDefault !ch.default }

theorem WellFormed.covered {s : Sequence} (h : s.WellFormed) (i : Nat) : (s.covered i).WellFormed :=
  h.modify fun _ hch => (hch.addSwitch h.startTime_isFinite).addSwitch h.stopTime_isFinite

theorem WellFormed.inverted {s : Sequence} (h : s.WellFormed) (i : Nat) :
    (s.inverted i).WellFormed := h.modify fun ch hch => hch.withDefault !ch.default

theorem getElem?_covered (s : Sequence) (i j : Nat) : (s.covered i).channels[j]? =
    s.channels[j]?.map fun ch =>
      if i = j then (ch.addSwitch s.startTime).addSwitch s.stopTime else ch :=
  List.getElem?_modify ..

theorem getElem?_inverted (s : Sequence) (i j : Nat) : (s.inverted i).channels[j]? =
    s.channels[j]?.map fun ch => if i = j then ch.withDefault !ch.default else ch :=
  List.getElem?_modify ..

theorem switches_inverted (s : Sequence) (i : Nat) :
    (s.inverted i).channels.map Channel.switches = s.channels.map Channel.switches := by
  apply List.ext_getElem?
  intro j
  rw [List.getElem?_map, List.getElem?_map, getElem?_inverted, Option.map_map]
  congr 1
  funext ch
  by_cases hij : i = j
  · simp [hij, Channel.withDefault]
  · simp [hij]

theorem startTime_inverted (s : Sequence) (i : Nat) : (s.inverted i).startTime = s.startTime := by
  have hfirst : ∀ s : Sequence, s.channels.filterMap Channel.firstSwitch? =
      (s.channels.map Channel.switches).filterMap List.head? := by
    intro s
    rw [List.filterMap_map]
    rfl
  rw [startTime, startTime, hfirst, hfirst, switches_inverted]
  rfl

theorem stopTime_inverted (s : Sequence) (i : Nat) : (s.inverted i).stopTime = s.stopTime := by
  have hlast : ∀ s : Sequence, s.channels.filterMap Channel.lastSwitch? =
      (s.channels.map Channel.switches).filterMap List.getLast? := by
    intro s
    rw [List.filterMap_map]
    rfl
  rw [stopTime, stopTime, hlast, hlast, switches_inverted]
  rfl

/-! ## The edits -/

theorem exists_covered_edits {s : Sequence} (h : s.WellFormed) {i : Nat} (hi : i < s.nchannels) :
    ∃ s', s.addSwitch i s.startTime = .ok s' ∧ s'.addSwitch i s.stopTime = .ok (s.covered i) := by
  refine ⟨_, addSwitch_eq_ok.2 ⟨h.startTime_isFinite, hi, rfl⟩,
    addSwitch_eq_ok.2 ⟨h.stopTime_isFinite, ?_, ?_⟩⟩
  · simpa [nchannels] using hi
  · simp only [covered, List.modify_modify_eq]
    rfl

theorem setDefault_inverted {s : Sequence} {i : Nat} {ch : Channel}
    (hi : s.channels[i]? = some ch) :
    s.setDefault i (!ch.default) = .ok (s.inverted i) := by
  refine modifyChannel_eq_ok.2 ⟨(List.getElem?_eq_some_iff.1 hi).1, ?_⟩
  have hchannels : (s.inverted i).channels = s.channels.modify i (·.withDefault !ch.default) := by
    apply List.ext_getElem?
    intro j
    rw [getElem?_inverted, List.getElem?_modify]
    by_cases hij : i = j
    · rw [← hij, hi]
      rfl
    · simp [hij]
  rw [← hchannels]
  rfl

end Sequence

namespace Compiler

section
variable {c : Compiler} (hd : c.dt.Positive) {s : Sequence} (hs : s.WellFormed) {i : Nat}

/-! ## The inverted default -/

theorem ticksTo_inverted (t : Binary64) : c.ticksTo (s.inverted i) t = c.ticksTo s t := by
  rw [ticksTo, ticksTo, s.startTime_inverted]

theorem switchTicks_inverted : c.switchTicks (s.inverted i) = c.switchTicks s := by
  have hswitches : ∀ a : Sequence, c.switchTicks a =
      (a.channels.map Channel.switches).flatMap (List.map (c.ticksTo a)) := by
    intro a
    rw [List.flatMap_map]
    rfl
  rw [hswitches, hswitches, s.switches_inverted, funext (ticksTo_inverted (c := c) (i := i))]

/-! ## The two more switches -/

include hd

theorem exists_mem_toggle_iff {u : Binary64} (hu : u.isNaN = false) {l : List Binary64}
    (hl : Channel.Ordered l) {k : Int} (hk : k ≠ c.ticksTo s u) :
    (∃ t ∈ Channel.toggle u l, c.ticksTo s t = k) ↔ ∃ t ∈ l, c.ticksTo s t = k := by
  constructor
  · rintro ⟨t, ht, rfl⟩
    rcases Channel.mem_toggle ht with rfl | ht
    · exact absurd rfl hk
    · exact ⟨t, ht, rfl⟩
  · rintro ⟨t, ht, rfl⟩
    have hne : t.position ≠ u.position := by
      intro heq
      rw [ticksTo, ticksTo, quantize_congr hd (hl.number t ht) hu heq] at hk
      exact hk rfl
    -- The place is kept; the time there may be the other zero.
    have hpos : t.position ∈ (Channel.toggle u l).map Binary64.position := by
      rw [hl.mem_toggle_iff hu]
      have hmem : t.position ∈ l.map Binary64.position := List.mem_map_of_mem ht
      simp only [hmem, ne_eq, hne, not_false_eq_true]
    obtain ⟨v, hv, hvt⟩ := List.mem_map.1 hpos
    have nv := (hl.toggle hu).number v hv
    exact ⟨v, hv, by rw [ticksTo, ticksTo, quantize_congr hd nv (hl.number t ht) hvt]⟩

variable (hstart : c.quantize (s.covered i).startTime = c.quantize s.startTime)
include hs hstart

/-- **The ticks of the switches** change on the first and on the last tick only. -/
theorem mem_switchTicks_covered {k : Int} (hfirst : k ≠ 0) (hlast : k ≠ c.ticksTo s s.stopTime) :
    k ∈ c.switchTicks (s.covered i) ↔ k ∈ c.switchTicks s := by
  have hticks : c.ticksTo (s.covered i) = c.ticksTo s := by
    funext t
    rw [ticksTo, ticksTo, hstart]
  have nstart := Binary64.isNaN_of_isFinite hs.startTime_isFinite
  have nstop := Binary64.isNaN_of_isFinite hs.stopTime_isFinite
  have hzero : k ≠ c.ticksTo s s.startTime := by
    rwa [ticksTo, Int.sub_self]
  have hchannel : ∀ ch ∈ s.channels,
      (∃ t ∈ ((ch.addSwitch s.startTime).addSwitch s.stopTime).switches, c.ticksTo s t = k) ↔
        ∃ t ∈ ch.switches, c.ticksTo s t = k := by
    intro ch hch
    have hord := (hs.channels ch hch).ordered
    exact (exists_mem_toggle_iff hd nstop (hord.toggle nstart) hlast).trans
      (exists_mem_toggle_iff hd nstart hord hzero)
  rw [mem_switchTicks, mem_switchTicks, hticks]
  constructor
  · rintro ⟨ch', hch', hk⟩
    obtain ⟨j, hj⟩ := List.mem_iff_getElem?.1 hch'
    rw [Sequence.getElem?_covered] at hj
    obtain ⟨ch, hch, rfl⟩ := Option.map_eq_some_iff.1 hj
    have hmem := List.mem_of_getElem? hch
    by_cases hij : i = j
    · rw [if_pos hij] at hk
      exact ⟨ch, hmem, (hchannel ch hmem).1 hk⟩
    · rw [if_neg hij] at hk
      exact ⟨ch, hmem, hk⟩
  · rintro ⟨ch, hch, hk⟩
    obtain ⟨j, hj⟩ := List.mem_iff_getElem?.1 hch
    have hj' := s.getElem?_covered i j
    rw [hj, Option.map_some] at hj'
    refine ⟨_, List.mem_of_getElem? hj', ?_⟩
    by_cases hij : i = j
    · rw [if_pos hij]
      exact (hchannel ch hch).2 hk
    · rw [if_neg hij]
      exact hk

/-- **The level of the channel** is inverted in every tick before the last. -/
theorem level_covered {ch : Channel} (hch : ch ∈ s.channels) {k : Nat}
    (hk : k < c.ticksTo s s.stopTime) :
    c.level (s.covered i) ((ch.addSwitch s.startTime).addSwitch s.stopTime) k =
      !c.level s ch k := by
  have nstart := Binary64.isNaN_of_isFinite hs.startTime_isFinite
  have nstop := Binary64.isNaN_of_isFinite hs.stopTime_isFinite
  have hord := (hs.channels ch hch).ordered
  let counts := fun t => decide (c.quantize t - c.quantize s.startTime ≤ (k : Int))
  have hcounts : ∀ {t u : Binary64}, t.isNaN = false → u.isNaN = false →
      t.position = u.position → counts t = counts u := by
    intro t u ht hu htu
    simp only [counts, quantize_congr hd ht hu htu]
  have h1 : counts s.startTime = true := by
    simp only [counts, Int.sub_self, decide_eq_true_eq]
    omega
  have h2 : counts s.stopTime = false := by
    unfold ticksTo at hk
    simp only [counts, decide_eq_false_iff_not]
    omega
  have hparity : (Channel.toggle s.stopTime
      (Channel.toggle s.startTime ch.switches)).countP counts % 2 =
        (ch.switches.countP counts + 1) % 2 := by
    rw [(hord.toggle nstart).countP_toggle nstop fun u hu =>
        hcounts ((hord.toggle nstart).number u hu) nstop,
      h2, if_neg Bool.false_ne_true, Nat.add_zero,
      hord.countP_toggle nstart fun u hu => hcounts (hord.number u hu) nstart, h1, if_pos rfl]
  rw [level, level, hstart]
  show (ch.default ^^ (Channel.toggle s.stopTime
    (Channel.toggle s.startTime ch.switches)).countP counts % 2 == 1) =
      !(ch.default ^^ ch.switches.countP counts % 2 == 1)
  rw [hparity, odd_add, ← Bool.xor_assoc]
  exact Bool.xor_true _

theorem outputsAt_covered {k : Nat} (hk : k < c.ticksTo s s.stopTime) :
    c.outputsAt (s.covered i) k = c.outputsAt (s.inverted i) k := by
  refine outputsAt_eq_of_levels (hs.covered i).width.2 ?_ ?_
  · simp [Sequence.nchannels, Sequence.covered, Sequence.inverted]
  · intro j ch ch' hj hj'
    rw [Sequence.getElem?_covered] at hj
    rw [Sequence.getElem?_inverted] at hj'
    obtain ⟨ch₀, hch₀, rfl⟩ := Option.map_eq_some_iff.1 hj
    rw [hch₀, Option.map_some, Option.some.injEq] at hj'
    subst hj'
    by_cases hij : i = j
    · rw [if_pos hij, if_pos hij, level_covered hd hs hstart (List.mem_of_getElem? hch₀) hk]
      simp [level, s.startTime_inverted, Channel.withDefault]
    · rw [if_neg hij, if_neg hij, level, level, hstart, s.startTime_inverted]

/-- **A covered channel is as good as an inverted one.** -/
theorem interchangeable_covered (hdur : c.duration = none)
    (hstop : c.quantize (s.covered i).stopTime = c.quantize s.stopTime)
    (hlong : 0 < c.ticksTo s s.stopTime) :
    c.Interchangeable (s.covered i) (s.inverted i) := by
  have hcovered : c.declaredTicks (s.covered i) = c.ticksTo s s.stopTime := by
    simp only [declaredTicks, declaredEnd, hdur, ticksTo, hstart, hstop]
  have hinverted : c.declaredTicks (s.inverted i) = c.ticksTo s s.stopTime := by
    simp only [declaredTicks, declaredEnd, hdur, ticksTo, s.startTime_inverted, s.stopTime_inverted]
  have hle := switchTicks_le_declaredTicks hd hdur (hs.covered i)
  have hle' := switchTicks_le_declaredTicks hd hdur (hs.inverted i)
  -- Without a declared duration the stop is the end, whichever switches there are.
  have hmax : max (c.declaredTicks (s.covered i)) (c.lastTick (s.covered i)) =
      c.ticksTo s s.stopTime := by
    have := (lastTick_le_iff (by omega)).2 hle
    omega
  have hmax' : max (c.declaredTicks (s.inverted i)) (c.lastTick (s.inverted i)) =
      c.ticksTo s s.stopTime := by
    have := (lastTick_le_iff (by omega)).2 hle'
    omega
  refine ⟨by rw [hcovered, hinverted], by rw [hmax, hmax'], fun hlimit => ?_, fun k hk => ?_⟩
  · rw [hmax] at hlimit
    have hsame : ∀ n, c.excessTicks (s.covered i) ≤ n ↔ c.excessTicks (s.inverted i) ≤ n := by
      intro n
      rw [excessTicks_le_iff hle (by rwa [hcovered]), excessTicks_le_iff hle' (by rwa [hinverted]),
        hcovered, hinverted, switchTicks_inverted]
      refine exists_congr fun k => and_congr_left fun hk => ?_
      by_cases hlast : k = c.ticksTo s s.stopTime
      · simp [hlast]
      · rw [mem_switchTicks_covered hd hs hstart (by omega) hlast]
    exact Int.le_antisymm ((hsame _).2 (Int.le_refl _)) ((hsame _).1 (Int.le_refl _))
  · rw [hmax] at hk
    exact outputsAt_covered hd hs hstart (by omega)

end

/-- **A pulse over the whole sequence or the other default.** Adding a switch at the start and one
at the stop to a channel, where that leaves the ends of the sequence, compiles to the same result as
inverting the default. -/
theorem compile_covered {c : Compiler} (hc : c.Accepted) (hdur : c.duration = none) {s : Sequence}
    (hs : s.Reachable) {i : Nat} {ch : Channel} (hi : s.channels[i]? = some ch)
    (hlong : c.quantize s.startTime < c.quantize s.stopTime) :
    ∃ s' s₁ s₂, s.addSwitch i s.startTime = .ok s' ∧ s'.addSwitch i s.stopTime = .ok s₁ ∧
      s.setDefault i (!ch.default) = .ok s₂ ∧
      (s₁.startTime.equal s.startTime = true → s₁.stopTime.equal s.stopTime = true →
        c.compile s₁ = c.compile s₂) := by
  have hw := hs.wellFormed
  obtain ⟨s', hfirst, hsecond⟩ :=
    Sequence.exists_covered_edits hw (List.getElem?_eq_some_iff.1 hi).1
  refine ⟨s', _, _, hfirst, hsecond, Sequence.setDefault_inverted hi, fun hstart hstop => ?_⟩
  obtain ⟨n1, n2, hpos⟩ := Binary64.equal_iff.1 hstart
  obtain ⟨n3, n4, hpos'⟩ := Binary64.equal_iff.1 hstop
  have hticks : 0 < c.ticksTo s s.stopTime := by
    unfold ticksTo
    omega
  have hqstart := quantize_congr hc.positive n1 n2 hpos
  have hsame := interchangeable_covered hc.positive hw hqstart hdur
    (quantize_congr hc.positive n3 n4 hpos') hticks
  have hend : 0 ≤ c.declaredTicks (s.inverted i) := by
    simp only [declaredTicks, declaredEnd, hdur, ticksTo_inverted, s.stopTime_inverted]
    omega
  exact compile_eq_of_outcome_eq (hsame.outcome_eq hc (hw.covered i) (hw.inverted i))
    (outcome_ne_panic hc (hw.covered i) (hsame.declared ▸ hend))

/-- The channel switches at the start and at the stop, so that both new switches cancel, and another
channel switches in the first tick, just after the start. -/
theorem compile_covered_cancelling :
    let s := [Edit.interval Binary64.zero (some (.ofNat 8)), .addPulse 0 Binary64.zero (.ofNat 8),
        .addPulse 0 (.ofNat 2) (.ofNat 1), .addPulse 1 (.ofRatio false 3 10) (.ofNat 5)].foldl
      Sequence.attempt ⟨[Channel.resting false, Channel.resting true], Binary64.zero, Binary64.zero⟩
    let c : Compiler := ⟨.ofNat 1, none⟩
    c.Accepted ∧ s.Reachable ∧ c.quantize s.startTime < c.quantize s.stopTime ∧
      ∃ s' s₁ s₂, s.addSwitch 0 s.startTime = .ok s' ∧ s'.addSwitch 0 s.stopTime = .ok s₁ ∧
        s.setDefault 0 true = .ok s₂ ∧
        s₁.channels.map (·.switches.length) = [2, 2] ∧
        s₂.channels.map (·.switches.length) = [4, 2] ∧
        ∃ p, c.compile s₁ = .ok p ∧ c.compile s₂ = .ok p := by
  intro s c
  have hc : c.Accepted :=
    .ofClockPeriod (ofClockPeriod_eq_ok.2 ⟨⟨by decide +kernel, by decide +kernel⟩, rfl⟩)
  have hs : s.Reachable := .attempt _ (.attempt _ (.attempt _ (.attempt _
    (@Sequence.Reachable.withDefaults [false, true] _ rfl))))
  have hlong : c.quantize s.startTime < c.quantize s.stopTime := by decide +kernel
  obtain ⟨ch, hi, hdefault⟩ : ∃ ch, s.channels[0]? = some ch ∧ ch.default = false :=
    ⟨⟨false, [Binary64.zero, .ofNat 2, .ofNat 3, .ofNat 8]⟩, by decide +kernel, rfl⟩
  obtain ⟨s', s₁, s₂, h1, h2, h3, hsame⟩ := compile_covered hc rfl hs hi hlong
  rw [hdefault] at h3
  have hs₁ : s₁ = s.covered 0 := by
    obtain ⟨-, -, rfl⟩ := Sequence.addSwitch_eq_ok.1 h1
    obtain ⟨-, -, rfl⟩ := Sequence.addSwitch_eq_ok.1 h2
    simp only [Sequence.covered, List.modify_modify_eq]
    rfl
  have hs₂ : s₂ = { s with channels := s.channels.modify 0 (·.withDefault true) } :=
    (Sequence.modifyChannel_eq_ok.1 h3).2
  subst hs₁ hs₂
  have hsame := hsame (by decide +kernel) (by decide +kernel)
  obtain ⟨p, hp⟩ : ∃ p, c.compile (s.covered 0) = .ok p := exists_compile_iff.2 (by decide +kernel)
  exact ⟨hc, hs, hlong, s', _, _, h1, h2, h3, by decide +kernel, by decide +kernel, p, hp,
    hsame ▸ hp⟩

end Compiler

end PulseSequencer
