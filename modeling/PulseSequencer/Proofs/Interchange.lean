import PulseSequencer.Proofs.Canonical
import PulseSequencer.Proofs.Encoding
import PulseSequencer.Proofs.Outcome
import PulseSequencer.Proofs.Sequence.Equality

/-!
Sequences that compile alike.

The outcome of a compilation depends on few things: the declared ticks, the length of the program,
the ticks that a refusal reports and the outputs in each tick of the program.  Where these agree the
outcomes do (`Interchangeable.outcome_eq`), since a program is canonical for what it plays.

Equal sequences agree in all of them: their switches lie at the same positions, and times at one
position have one tick.  The events need not come in the same order, for the two zeros are one time
and yet sorted one after the other, but that does not show in the outputs of a tick:
`outcome_eq_of_equal`.
-/

namespace PulseSequencer

/-! ## Outputs by their bits -/

theorem Narrow.getLsbD_of_le {n i : Nat} {w : Word} (h : Narrow n w) (hi : n ≤ i) :
    w.getLsbD i = false :=
  Nat.testBit_lt_two_pow (Nat.lt_of_lt_of_le h (Nat.pow_le_pow_right (by decide) hi))

theorem Flip.narrow_maskUpTo {n k : Nat} {flips : List Flip} (h : ∀ f ∈ flips, Narrow n f.mask) :
    Narrow n (maskUpTo k flips) := by
  induction flips with
  | nil => exact .zero n
  | cons f rest ih =>
    obtain ⟨hf, hrest⟩ := List.forall_mem_cons.1 h
    rw [maskUpTo]
    by_cases hk : f.tick ≤ k
    · rw [if_pos hk]
      exact hf.xor (ih hrest)
    · rw [if_neg hk]
      exact (Narrow.zero n).xor (ih hrest)

namespace Compiler

theorem narrow_outputsAt (c : Compiler) (s : Sequence) (k : Nat) :
    Narrow s.nchannels (c.outputsAt s k) :=
  s.narrow_defaultOutputs.xor (Flip.narrow_maskUpTo (c.narrow_eventFlip s))

/-- **The outputs are the levels of the channels**, and nothing else. -/
theorem outputsAt_eq_of_levels {c : Compiler} {a b : Sequence}
    (ha : a.nchannels ≤ Validation.maxChannels) (hn : a.nchannels = b.nchannels) {k : Nat}
    (h : ∀ (i : Nat) (ch ch' : Channel), a.channels[i]? = some ch → b.channels[i]? = some ch' →
      c.level a ch k = c.level b ch' k) : c.outputsAt a k = c.outputsAt b k := by
  apply BitVec.eq_of_getLsbD_eq
  intro i _
  by_cases hi : i < a.nchannels
  · obtain ⟨ch, hch⟩ : ∃ ch, a.channels[i]? = some ch := ⟨_, List.getElem?_eq_getElem hi⟩
    obtain ⟨ch', hch'⟩ : ∃ ch', b.channels[i]? = some ch' :=
      ⟨_, List.getElem?_eq_getElem (show i < b.nchannels from hn ▸ hi)⟩
    rw [getLsbD_outputsAt ha hch, getLsbD_outputsAt (hn ▸ ha) hch']
    exact h i ch ch' hch hch'
  · rw [(c.narrow_outputsAt a k).getLsbD_of_le (Nat.not_lt.1 hi),
      (c.narrow_outputsAt b k).getLsbD_of_le (hn ▸ Nat.not_lt.1 hi)]

/-! ## What an outcome depends on -/

/-- Two sequences agree in what decides the outcome of a compilation. -/
structure Interchangeable (c : Compiler) (a b : Sequence) : Prop where
  declared : c.declaredTicks a = c.declaredTicks b
  length : max (c.declaredTicks a) (c.lastTick a) = max (c.declaredTicks b) (c.lastTick b)
  /-- what a refusal reports, if there is one -/
  excess : (maxProgramTicks : Int) < max (c.declaredTicks a) (c.lastTick a) →
    c.excessTicks a = c.excessTicks b
  /-- the outputs that wait for the trigger and those in the ticks of the program -/
  outputs : ∀ k : Nat, k = 0 ∨ k < max (c.declaredTicks a) (c.lastTick a) →
    c.outputsAt a k = c.outputsAt b k

section
variable {c : Compiler} {a b : Sequence} (h : c.Interchangeable a b) (hc : c.Accepted)
  (ha : a.WellFormed) (hb : b.WellFormed)
include h hc ha hb

theorem Interchangeable.program_eq {p q : Program} (hp : c.compile a = .ok p)
    (hq : c.compile b = .ok q) : p = q := by
  have hpa := periodTicks_of_compile hp hc.positive ha
  have hqb := periodTicks_of_compile hq hc.positive hb
  have hdeclared := h.declared
  have hlength := h.length
  have hperiod : p.periodTicks = q.periodTicks := by omega
  have hwarnings : p.warnings = q.warnings := by
    rw [warnings_of_compile hp hc.positive ha, warnings_of_compile hq hc.positive hb]
    by_cases hlt : c.declaredTicks a < c.lastTick a
    · have hlast : c.lastTick a = c.lastTick b := by omega
      rw [hdeclared, hlast]
    · rw [if_neg hlt, if_neg (by omega)]
  have hinstructions : p.instructions = q.instructions := by
    rw [(canonical_of_compile hc.positive ha hp).code_eq,
      (canonical_of_compile hc.positive hb hq).code_eq, h.outputs 0 (.inl rfl), ← hperiod]
    congr 1
    refine List.map_congr_left fun k hk => h.outputs k (.inr ?_)
    rw [List.mem_range] at hk
    omega
  cases p
  cases q
  rw [Program.mk.injEq]
  exact ⟨hinstructions, hperiod, hwarnings⟩

/-- **Interchangeable sequences have one outcome.** -/
theorem Interchangeable.outcome_eq : c.outcome a = c.outcome b := by
  have hdeclared := h.declared
  have hlength := h.length
  by_cases h0 : 0 ≤ c.declaredTicks a
  · by_cases hlimit : max (c.declaredTicks a) (c.lastTick a) ≤ maxProgramTicks
    · obtain ⟨p, hp⟩ := exists_compile_of_within hc ha h0 hlimit
      obtain ⟨q, hq⟩ := exists_compile_of_within hc hb (hdeclared ▸ h0) (hlength ▸ hlimit)
      rw [outcome_of_ok hp, outcome_of_ok hq, h.program_eq hc ha hb hp hq]
    · have hbeyond := Int.not_le.1 hlimit
      rw [outcome_of_beyond hc ha h0 hbeyond, h.excess hbeyond,
        outcome_of_beyond hc hb (hdeclared ▸ h0) (hlength ▸ hbeyond)]
  · rw [outcome_of_before hc ha (Int.not_le.1 h0),
      outcome_of_before hc hb (hdeclared ▸ Int.not_le.1 h0)]

end

/-! ## Equal sequences -/

theorem map_eq_of_map_eq {α β γ : Type} {f : α → β} {g g' : α → γ} {l l' : List α}
    (hmap : l.map f = l'.map f) (h : ∀ x ∈ l, ∀ y ∈ l', f x = f y → g x = g' y) :
    l.map g = l'.map g' := by
  induction l generalizing l' with
  | nil =>
    cases l' with
    | nil => rfl
    | cons y l' => simp at hmap
  | cons x l ih =>
    cases l' with
    | nil => simp at hmap
    | cons y l' =>
      simp only [List.map_cons, List.cons.injEq] at hmap ⊢
      refine ⟨h x (by simp) y (by simp) hmap.1, ih hmap.2 fun u hu v hv => ?_⟩
      exact h u (by simp [hu]) v (by simp [hv])

section
variable {c : Compiler} (hd : c.dt.Positive) {a b : Sequence} (ha : a.WellFormed)
  (hb : b.WellFormed)
include hd ha hb

theorem map_quantize_of_view {ch ch' : Channel} (hch : ch ∈ a.channels) (hch' : ch' ∈ b.channels)
    (hview : ch.view = ch'.view) :
    ch.switches.map c.quantize = ch'.switches.map c.quantize := by
  refine map_eq_of_map_eq (congrArg Prod.snd hview) fun t ht u hu htu => ?_
  exact quantize_congr hd (ha.numbers hch t ht) (hb.numbers hch' u hu) htu

variable (hstart : c.quantize a.startTime = c.quantize b.startTime)
  (hviews : a.channels.map Channel.view = b.channels.map Channel.view)
include hstart hviews

theorem switchTicks_of_views : c.switchTicks a = c.switchTicks b := by
  rw [switchTicks, switchTicks, List.flatMap_def, List.flatMap_def]
  congr 1
  refine map_eq_of_map_eq hviews fun ch hch ch' hch' hview => ?_
  have hticks := congrArg (List.map (· - c.quantize a.startTime))
    (map_quantize_of_view hd ha hb hch hch' hview)
  rw [List.map_map, List.map_map] at hticks
  unfold ticksTo
  rw [← hstart]
  exact hticks

theorem outputsAt_of_views (k : Nat) : c.outputsAt a k = c.outputsAt b k := by
  have hn : a.nchannels = b.nchannels := by
    have hlength := congrArg List.length hviews
    rwa [List.length_map, List.length_map] at hlength
  refine outputsAt_eq_of_levels ha.width.2 hn fun i ch ch' hi hi' => ?_
  have hview : ch.view = ch'.view := by
    have hat := congrArg (·[i]?) hviews
    simpa [hi, hi'] using hat
  have hticks := congrArg
    (List.countP fun q => decide (q - c.quantize a.startTime ≤ (k : Int)))
    (map_quantize_of_view hd ha hb (List.mem_of_getElem? hi) (List.mem_of_getElem? hi') hview)
  rw [List.countP_map, List.countP_map] at hticks
  have hdefault : ch.default = ch'.default := congrArg Prod.fst hview
  rw [level, level, ← hstart, hdefault]
  exact congrArg (fun n => ch'.default ^^ n % 2 == 1) hticks

end

/-- The declared end is at the same tick: a sum with the declared duration lies where the start
does, whatever the sign of a zero. -/
theorem quantize_declaredEnd {c : Compiler} (hc : c.Accepted) {a b : Sequence} (ha : a.WellFormed)
    (hb : b.WellFormed) (hstart : a.startTime.position = b.startTime.position)
    (hstop : a.stopTime.position = b.stopTime.position) :
    c.quantize (c.declaredEnd a) = c.quantize (c.declaredEnd b) := by
  have fa := ha.startTime_isFinite
  have fb := hb.startTime_isFinite
  unfold declaredEnd
  cases hdur : c.duration with
  | none =>
    exact quantize_congr hc.positive (Binary64.isNaN_of_isFinite ha.stopTime_isFinite)
      (Binary64.isNaN_of_isFinite hb.stopTime_isFinite) hstop
  | some d =>
    obtain ⟨fd, -⟩ := hc.duration_ok hdur
    obtain ⟨hna, hpa⟩ := Binary64.add_spec fa fd
    obtain ⟨hnb, hpb⟩ := Binary64.add_spec fb fd
    refine quantize_congr hc.positive hna hnb ?_
    rw [Binary64.position_of_isFinite fa, Binary64.position_of_isFinite fb] at hstart
    rw [hpa, hpb, hstart]

theorem interchangeable_of_equal {c : Compiler} (hc : c.Accepted) {a b : Sequence}
    (ha : a.WellFormed) (hb : b.WellFormed) (h : a.equal b = true) : c.Interchangeable a b := by
  obtain ⟨hstart, hstop, hviews⟩ := (ha.equal_iff hb).1 h
  have hqstart : c.quantize a.startTime = c.quantize b.startTime :=
    quantize_congr hc.positive (Binary64.isNaN_of_isFinite ha.startTime_isFinite)
      (Binary64.isNaN_of_isFinite hb.startTime_isFinite) hstart
  have hdeclared : c.declaredTicks a = c.declaredTicks b := by
    rw [declaredTicks, declaredTicks, ticksTo, ticksTo, hqstart,
      quantize_declaredEnd hc ha hb hstart hstop]
  have hticks := switchTicks_of_views hc.positive ha hb hqstart hviews
  refine ⟨hdeclared, ?_, fun _ => ?_, fun k _ => ?_⟩
  · rw [lastTick, lastTick, hdeclared, hticks]
  · rw [excessTicks, excessTicks, hdeclared, hticks]
  · exact outputsAt_of_views hc.positive ha hb hqstart hviews k

/-- **Equal sequences compile alike**: to the same program, to the same error, or both panic. -/
theorem outcome_eq_of_equal {c : Compiler} (hc : c.Accepted) {a b : Sequence} (ha : a.Reachable)
    (hb : b.Reachable) (h : a.equal b = true) : c.outcome a = c.outcome b :=
  (interchangeable_of_equal hc ha.wellFormed hb.wellFormed h).outcome_eq hc ha.wellFormed
    hb.wellFormed

/-- One switch at each zero, on different channels, and a declared start that the switches hide: the
events come in different orders and the programs are the same. -/
theorem outcome_eq_of_equal_zeros :
    let minus := Binary64.ofRatio true 0 1
    let fresh : Sequence :=
      ⟨[Channel.resting false, Channel.resting true], Binary64.zero, Binary64.zero⟩
    let a := [Edit.switch 0 Binary64.zero, .switch 1 minus, .setStop (.ofNat 4)].foldl
      Sequence.attempt fresh
    let b := [Edit.setStop (.ofNat 4), .setStart (.ofNat 1), .switch 1 Binary64.zero,
      .switch 0 minus].foldl Sequence.attempt fresh
    let c : Compiler := ⟨.ofNat 1, none⟩
    c.Accepted ∧ a.Reachable ∧ b.Reachable ∧ a.equal b = true ∧
      a.declaredStart ≠ b.declaredStart ∧ a.events.map Prod.snd = [1, 0] ∧
      b.events.map Prod.snd = [0, 1] ∧ ∃ p, c.outcome a = .ok p ∧ c.outcome b = .ok p := by
  intro minus fresh a b c
  have hc : c.Accepted :=
    .ofClockPeriod (ofClockPeriod_eq_ok.2 ⟨⟨by decide +kernel, by decide +kernel⟩, rfl⟩)
  have hfresh : fresh.Reachable := @Sequence.Reachable.withDefaults [false, true] _ rfl
  have ha : a.Reachable := .attempt _ (.attempt _ (.attempt _ hfresh))
  have hb : b.Reachable := .attempt _ (.attempt _ (.attempt _ (.attempt _ hfresh)))
  have hequal : a.equal b = true := by decide +kernel
  have hsort : ∀ {s : Sequence} {x y : Binary64},
      s.channels = [⟨false, [x]⟩, ⟨true, [y]⟩] →
      s.events.map Prod.snd = if x.totalLe y then [0, 1] else [1, 0] := by
    intro s x y hs
    by_cases hle : x.totalLe y = true <;>
      simp [Sequence.events, hs, List.mergeSort, List.MergeSort.Internal.splitInTwo, hle]
  have hea : a.events.map Prod.snd = [1, 0] := by
    rw [hsort (show a.channels = [⟨false, [Binary64.zero]⟩, ⟨true, [minus]⟩] by decide +kernel)]
    decide +kernel
  have heb : b.events.map Prod.snd = [0, 1] := by
    rw [hsort (show b.channels = [⟨false, [minus]⟩, ⟨true, [Binary64.zero]⟩] by decide +kernel)]
    decide +kernel
  obtain ⟨p, hp⟩ : ∃ p, c.compile a = .ok p := exists_compile_iff.2 (by decide +kernel)
  have hsame := outcome_eq_of_equal hc ha hb hequal
  rw [outcome_of_ok hp] at hsame
  exact ⟨hc, ha, hb, hequal, by decide +kernel, hea, heb, p, outcome_of_ok hp, hsame.symm⟩

end Compiler

end PulseSequencer
