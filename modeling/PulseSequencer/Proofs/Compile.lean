import PulseSequencer.Proofs.Flips
import PulseSequencer.Proofs.Quantize
import PulseSequencer.Proofs.Sequence.Interval

/-!
From the switches of a sequence to the flips of its program.

The events are the switches of all channels in order of time (`events_sorted`), each channel's as
often as the channel has them (`countP_events`).  Since later times have later ticks, their flips
come in order of ticks, and the waveform of the flips is, bit by bit, the default of a channel
changed by the parity of its switches so far (`getLsbD_outputsAt`).  `compile_eq_ok` takes a
successful compilation apart.
-/

namespace PulseSequencer

theorem getLsbD_one_shiftLeft {i j : Nat} (hj : j < 32) :
    (1#32 <<< i).getLsbD j = decide (i = j) := by
  rw [BitVec.getLsbD_shiftLeft, BitVec.getLsbD_one]
  by_cases h : i ≤ j
  · rw [decide_eq_true hj, decide_eq_false (by omega : ¬ j < i)]
    simp only [Bool.not_false, Bool.true_and, Nat.zero_lt_succ, decide_true, decide_eq_decide]
    omega
  · rw [decide_eq_true (by omega : j < i), decide_eq_false (by omega : ¬ i = j)]
    simp

namespace Sequence

/-! ## Events -/

theorem mem_events {s : Sequence} {t : Binary64} {i : Nat} :
    (t, i) ∈ s.events ↔ ∃ c, s.channels[i]? = some c ∧ t ∈ c.switches := by
  rw [events, List.mem_mergeSort, List.mem_flatMap]
  constructor
  · rintro ⟨⟨c, j⟩, hc, ht⟩
    obtain ⟨u, hu, heq⟩ := List.mem_map.1 ht
    simp only [Prod.mk.injEq] at heq
    obtain ⟨rfl, rfl⟩ := heq
    exact ⟨c, List.mem_zipIdx_iff_getElem?.1 hc, hu⟩
  · rintro ⟨c, hc, ht⟩
    exact ⟨(c, i), List.mem_zipIdx_iff_getElem?.2 hc, List.mem_map.2 ⟨t, ht, rfl⟩⟩

theorem WellFormed.isFinite_of_mem_events {s : Sequence} (h : s.WellFormed) {e : Binary64 × Nat}
    (he : e ∈ s.events) : e.1.isFinite = true := by
  obtain ⟨c, hc, ht⟩ := mem_events.1 (show (e.1, e.2) ∈ s.events from he)
  exact h.isFinite_of_mem (List.mem_of_getElem? hc) ht

/-- **The events are in order of time.** -/
theorem WellFormed.events_sorted {s : Sequence} (h : s.WellFormed) :
    s.events.Pairwise fun a b => a.1 ≤ b.1 := by
  have hsorted : s.events.Pairwise fun a b => a.1.totalLe b.1 = true := by
    refine List.pairwise_mergeSort ?_ ?_ _
    · intro a b c
      exact Binary64.totalLe_trans
    · intro a b
      exact Binary64.totalLe_total a.1 b.1
  refine hsorted.imp_of_mem fun {a b} ha hb hab => ?_
  exact Binary64.le_of_totalLe (Binary64.isNaN_of_isFinite (h.isFinite_of_mem_events ha))
    (Binary64.isNaN_of_isFinite (h.isFinite_of_mem_events hb)) hab

theorem countP_switches (p : Binary64 → Bool) : ∀ {l : List Channel} {n i : Nat} {c : Channel},
    l[i]? = some c →
    ((l.zipIdx n).flatMap fun (c, j) => c.switches.map (·, j)).countP
      (fun e => p e.1 && e.2 == n + i) = c.switches.countP p
  | [], _, _, _, h => by simp at h
  | c₀ :: l, n, 0, c, h => by
    simp only [List.getElem?_cons_zero, Option.some.injEq] at h
    subst h
    have hlater : ((l.zipIdx (n + 1)).flatMap fun (c, j) => c.switches.map (·, j)).countP
        (fun e => p e.1 && e.2 == n + 0) = 0 := by
      rw [List.countP_eq_zero]
      rintro ⟨t, j⟩ he
      obtain ⟨⟨c, j'⟩, hc, ht⟩ := List.mem_flatMap.1 he
      obtain ⟨u, -, heq⟩ := List.mem_map.1 ht
      simp only [Prod.mk.injEq] at heq
      obtain ⟨-, rfl⟩ := heq
      have := List.le_snd_of_mem_zipIdx hc
      dsimp only at this
      simp
      omega
    rw [List.zipIdx_cons, List.flatMap_cons, List.countP_append, hlater, List.countP_map]
    simp [Function.comp_def]
  | c₀ :: l, n, i + 1, c, h => by
    simp only [List.getElem?_cons_succ] at h
    have hfirst : (c₀.switches.map (·, n)).countP (fun e => p e.1 && e.2 == n + (i + 1)) = 0 := by
      rw [List.countP_map, List.countP_eq_zero]
      intro t _
      simp
    rw [List.zipIdx_cons, List.flatMap_cons, List.countP_append, hfirst, Nat.zero_add,
      show n + (i + 1) = n + 1 + i by omega]
    exact countP_switches p h

theorem countP_events {s : Sequence} {i : Nat} {c : Channel} (hc : s.channels[i]? = some c)
    (p : Binary64 → Bool) :
    s.events.countP (fun e => p e.1 && e.2 == i) = c.switches.countP p := by
  rw [events, (List.mergeSort_perm _ _).countP_eq]
  have := countP_switches p (n := 0) hc
  simpa using this

/-! ## Default outputs -/

theorem getLsbD_foldl_of_lt {j : Nat} (hj : j < 32) : ∀ {l : List Channel} {n : Nat} {w : Word},
    j < n → ((l.zipIdx n).foldl (fun w (c, i) => if c.default then w ||| 1#32 <<< i else w)
      w).getLsbD j = w.getLsbD j
  | [], _, _, _ => rfl
  | c :: l, n, w, h => by
    rw [List.zipIdx_cons, List.foldl_cons, getLsbD_foldl_of_lt hj (by omega)]
    dsimp only
    split
    · rw [BitVec.getLsbD_or, getLsbD_one_shiftLeft hj, decide_eq_false (by omega), Bool.or_false]
    · rfl

theorem getLsbD_foldl_default : ∀ {l : List Channel} {n i : Nat} {w : Word} {c : Channel},
    l[i]? = some c → n + i < 32 → w.getLsbD (n + i) = false →
    ((l.zipIdx n).foldl (fun w (c, i) => if c.default then w ||| 1#32 <<< i else w)
      w).getLsbD (n + i) = c.default
  | [], _, _, _, _, h, _, _ => by simp at h
  | c₀ :: l, n, 0, w, c, h, hlt, hw => by
    simp only [List.getElem?_cons_zero, Option.some.injEq] at h
    subst h
    rw [List.zipIdx_cons, List.foldl_cons, getLsbD_foldl_of_lt hlt (by omega)]
    dsimp only
    split
    · rename_i hd
      rw [BitVec.getLsbD_or, getLsbD_one_shiftLeft hlt, hw, hd]
      simp
    · rename_i hd
      rw [hw]
      exact (Bool.not_eq_true _ ▸ hd : c₀.default = false).symm
  | c₀ :: l, n, i + 1, w, c, h, hlt, hw => by
    simp only [List.getElem?_cons_succ] at h
    rw [List.zipIdx_cons, List.foldl_cons, show n + (i + 1) = n + 1 + i by omega]
    refine getLsbD_foldl_default h (by omega) ?_
    rw [show n + 1 + i = n + (i + 1) by omega]
    dsimp only
    split
    · rw [BitVec.getLsbD_or, getLsbD_one_shiftLeft hlt, hw, decide_eq_false (by omega)]
      rfl
    · exact hw

theorem getLsbD_defaultOutputs {s : Sequence} (hn : s.nchannels ≤ Validation.maxChannels) {i : Nat}
    {c : Channel} (hc : s.channels[i]? = some c) : s.defaultOutputs.getLsbD i = c.default := by
  have hi := (List.getElem?_eq_some_iff.1 hc).1
  have hlt : 0 + i < 32 := by
    unfold nchannels Validation.maxChannels at hn
    omega
  have := getLsbD_foldl_default (w := 0) hc hlt (by simp)
  rw [Nat.zero_add] at this
  exact this

end Sequence

namespace Compiler

/-! ## Flips -/

/-- A time counts as a tick of the program, counted from the start of the sequence. -/
def Within (c : Compiler) (s : Sequence) (t : Binary64) : Prop :=
  0 ≤ c.quantize t - c.quantize s.startTime ∧
    c.quantize t - c.quantize s.startTime ≤ maxProgramTicks

instance (c : Compiler) (s : Sequence) (t : Binary64) : Decidable (c.Within s t) :=
  inferInstanceAs (Decidable (_ ∧ _))

theorem offset_eq_ok {c : Compiler} {s : Sequence} {t : Binary64} {n : Nat} :
    c.offset s.startTime t = .ok n ↔
      c.Within s t ∧ n = (c.quantize t - c.quantize s.startTime).toNat := by
  unfold offset Within
  dsimp only
  split
  · simp; omega
  · split
    · simp; omega
    · simp; omega

theorem offset_eq_error {c : Compiler} {s : Sequence} {t : Binary64} {e : CompileError}
    (h0 : 0 ≤ c.quantize t - c.quantize s.startTime) (h : c.offset s.startTime t = .error e) :
    e = .invalid (.resourceLimit "program ticks" maxProgramTicks
      (c.quantize t - c.quantize s.startTime).toNat) := by
  have hreported : (c.quantize t - c.quantize s.startTime).toNat ≤ maxReportedTicks := by
    have ht := quantize_bounds c t
    have hstart := quantize_bounds c s.startTime
    unfold maxReportedTicks
    omega
  unfold offset at h
  dsimp only at h
  rw [if_neg (Int.not_lt.2 h0), Nat.min_eq_left hreported] at h
  split at h
  · simp only [Except.error.injEq] at h
    exact h.symm
  · cases h

/-- The flip of a switch. -/
def eventFlip (c : Compiler) (s : Sequence) (e : Binary64 × Nat) : Flip :=
  ⟨(c.quantize e.1 - c.quantize s.startTime).toNat, 1#32 <<< e.2⟩

theorem mapM_eventFlip {c : Compiler} {s : Sequence} :
    ∀ {events : List (Binary64 × Nat)} {flips : List Flip},
      (events.mapM fun (t, i) => do
        return (⟨← c.offset s.startTime t, 1#32 <<< i⟩ : Flip)) = Except.ok flips ↔
      (∀ e ∈ events, c.Within s e.1) ∧ flips = events.map (c.eventFlip s)
  | [], flips => by simp [pure, Except.pure, eq_comm]
  | (t, i) :: events, flips => by
    simp only [List.mapM_cons, Except.bind_eq_ok, Except.pure_eq_ok, offset_eq_ok, mapM_eventFlip,
      List.forall_mem_cons, List.map_cons]
    constructor
    · rintro ⟨-, ⟨n, ⟨h1, rfl⟩, rfl⟩, -, ⟨h2, rfl⟩, rfl⟩
      exact ⟨⟨h1, h2⟩, rfl⟩
    · rintro ⟨⟨h1, h2⟩, rfl⟩
      exact ⟨_, ⟨_, ⟨h1, rfl⟩, rfl⟩, _, ⟨h2, rfl⟩, rfl⟩

theorem flips_eq_ok {c : Compiler} {s : Sequence} {flips : List Flip} :
    c.flips s = .ok flips ↔
      (∀ e ∈ s.events, c.Within s e.1) ∧ flips = Flip.merge (s.events.map (c.eventFlip s)) := by
  simp only [Compiler.flips, Except.bind_eq_ok, Except.pure_eq_ok, mapM_eventFlip]
  constructor
  · rintro ⟨-, ⟨h, rfl⟩, rfl⟩
    exact ⟨h, rfl⟩
  · rintro ⟨h, rfl⟩
    exact ⟨_, ⟨h, rfl⟩, rfl⟩

theorem eventFlip_sorted {c : Compiler} (hd : c.dt.Positive) {s : Sequence} (hs : s.WellFormed) :
    (s.events.map (c.eventFlip s)).Pairwise fun f g => f.tick ≤ g.tick := by
  rw [List.pairwise_map]
  refine hs.events_sorted.imp fun {a b} hab => ?_
  have := quantize_le_quantize hd hab
  simp only [eventFlip]
  omega

/-- The program of flips, with the tick at which it is declared to end. -/
def programOf (s : Sequence) (declared : Nat) (flips : List Flip) : Program :=
  let last := (flips.getLast?.map Flip.tick).getD 0
  let first := Flip.splitFirst s.defaultOutputs flips
  { instructions := .triggerWait first.1 ::
      Flip.toInstructions (max declared last) 0 first.1 first.2
    periodTicks := max declared last
    warnings := if declared < last then [.durationExceeded declared last] else [] }

/-- **A successful compilation**: the width fits, all ticks are within the limit, and the program
is that of the flips. -/
theorem compile_eq_ok {c : Compiler} {s : Sequence} {p : Program} :
    c.compile s = .ok p ↔ s.nchannels ≤ Validation.maxChannels ∧
      (∀ e ∈ s.events, c.Within s e.1) ∧ c.Within s (c.declaredEnd s) ∧
      p = programOf s (c.quantize (c.declaredEnd s) - c.quantize s.startTime).toNat
        (Flip.merge (s.events.map (c.eventFlip s))) := by
  simp only [compile, Except.bind_eq_ok, Except.stop_eq_ok, Except.pure_eq_ok, Nat.not_lt,
    flips_eq_ok, offset_eq_ok]
  constructor
  · rintro ⟨hn, -, ⟨hw, rfl⟩, -, ⟨hd, rfl⟩, rfl⟩
    exact ⟨hn, hw, hd, rfl⟩
  · rintro ⟨hn, hw, hd, rfl⟩
    exact ⟨hn, _, ⟨hw, rfl⟩, _, ⟨hd, rfl⟩, rfl⟩

theorem exists_compile_iff {c : Compiler} {s : Sequence} :
    (∃ p, c.compile s = .ok p) ↔ s.nchannels ≤ Validation.maxChannels ∧
      (∀ ch ∈ s.channels, ∀ t ∈ ch.switches, c.Within s t) ∧ c.Within s (c.declaredEnd s) := by
  have hevents : (∀ e ∈ s.events, c.Within s e.1) ↔
      ∀ ch ∈ s.channels, ∀ t ∈ ch.switches, c.Within s t := by
    constructor
    · intro h ch hch t ht
      obtain ⟨i, hi⟩ := List.mem_iff_getElem?.1 hch
      exact h (t, i) (Sequence.mem_events.2 ⟨ch, hi, ht⟩)
    · rintro h ⟨t, i⟩ he
      obtain ⟨ch, hi, ht⟩ := Sequence.mem_events.1 he
      exact h ch (List.mem_of_getElem? hi) t ht
  simp only [compile_eq_ok, hevents]
  constructor
  · rintro ⟨-, hn, hw, hd, -⟩
    exact ⟨hn, hw, hd⟩
  · rintro ⟨hn, hw, hd⟩
    exact ⟨_, hn, hw, hd, rfl⟩

/-- **A failed compilation** of a sequence whose width fits fails at the first event whose tick
fails, or after all events at the declared end. -/
theorem compile_eq_error_first {c : Compiler} {s : Sequence} {e : CompileError}
    (hn : s.nchannels ≤ Validation.maxChannels) (h : c.compile s = .error e) :
    (∃ before a after, s.events = before ++ a :: after ∧ (∀ b ∈ before, c.Within s b.1) ∧
      c.offset s.startTime a.1 = .error e) ∨
    ((∀ a ∈ s.events, c.Within s a.1) ∧ c.offset s.startTime (c.declaredEnd s) = .error e) := by
  rw [compile, if_neg (Nat.not_lt.2 hn), Except.bind_eq_error] at h
  rcases h with hflips | ⟨flips, hflips, h⟩
  · left
    rcases Except.bind_eq_error.1 hflips with hswitches | ⟨switches, -, h⟩
    · obtain ⟨before, a, after, hevents, hbefore, ha⟩ := Except.mapM_eq_error_first hswitches
      refine ⟨before, a, after, hevents, fun b hb => ?_, ?_⟩
      · obtain ⟨flip, hb⟩ := hbefore b hb
        obtain ⟨n, hn, -⟩ := Except.bind_eq_ok.1 hb
        exact (offset_eq_ok.1 hn).1
      · rcases Except.bind_eq_error.1 ha with ha | ⟨n, -, h⟩
        · exact ha
        · exact absurd h Except.pure_ne_error
    · exact absurd h Except.pure_ne_error
  · right
    refine ⟨(flips_eq_ok.1 hflips).1, ?_⟩
    rcases Except.bind_eq_error.1 h with hend | ⟨declared, -, h⟩
    · exact hend
    · exact absurd h Except.pure_ne_error

theorem compile_eq_error {c : Compiler} {s : Sequence} {e : CompileError}
    (hn : s.nchannels ≤ Validation.maxChannels) (h : c.compile s = .error e) :
    ∃ t, ((∃ ch ∈ s.channels, t ∈ ch.switches) ∨ t = c.declaredEnd s) ∧
      c.offset s.startTime t = .error e := by
  rcases compile_eq_error_first hn h with ⟨before, ⟨t, i⟩, after, hevents, -, ha⟩ | ⟨-, hend⟩
  · have hmem : (t, i) ∈ s.events := by
      rw [hevents]
      simp
    obtain ⟨ch, hch, ht⟩ := Sequence.mem_events.1 hmem
    exact ⟨t, .inl ⟨ch, List.mem_of_getElem? hch, ht⟩, ha⟩
  · exact ⟨_, .inr rfl, hend⟩

/-! ## Levels -/

/-- The level of a channel in clock tick `k` of the program: its default, changed once for each
switch at a tick up to `k`. -/
def level (c : Compiler) (s : Sequence) (ch : Channel) (k : Nat) : Bool :=
  ch.default ^^
    (ch.switches.countP fun t => decide (c.quantize t - c.quantize s.startTime ≤ k)) % 2 == 1

/-- The outputs in clock tick `k` of the program. -/
def outputsAt (c : Compiler) (s : Sequence) (k : Nat) : Word :=
  s.defaultOutputs ^^^ Flip.maskUpTo k (s.events.map (c.eventFlip s))

/-- **The bits of the outputs are the levels of their channels.** -/
theorem getLsbD_outputsAt {c : Compiler} {s : Sequence}
    (hn : s.nchannels ≤ Validation.maxChannels) {i : Nat} {ch : Channel}
    (hc : s.channels[i]? = some ch) (k : Nat) :
    (c.outputsAt s k).getLsbD i = c.level s ch k := by
  have hi : i < 32 := by
    have := (List.getElem?_eq_some_iff.1 hc).1
    unfold Sequence.nchannels Validation.maxChannels at hn
    omega
  rw [outputsAt, BitVec.getLsbD_xor, Sequence.getLsbD_defaultOutputs hn hc,
    Flip.getLsbD_maskUpTo, level, List.countP_map, ← Sequence.countP_events hc]
  congr 3
  refine List.countP_congr fun e _ => ?_
  have htick : (c.quantize e.1 - c.quantize s.startTime).toNat ≤ k ↔
      c.quantize e.1 - c.quantize s.startTime ≤ k := by omega
  simp [eventFlip, getLsbD_one_shiftLeft hi, htick]

/-- **The program of a sequence**: the outputs at the trigger, then the instructions of flips with
increasing ticks after the start, whose waveform is that of the switches. -/
theorem compile_flips {c : Compiler} (hd : c.dt.Positive) {s : Sequence} (hs : s.WellFormed)
    {p : Program} (h : c.compile s = .ok p) :
    ∃ flips, Flip.Ascending flips ∧ (∀ f ∈ flips, 0 < f.tick) ∧
      p.instructions = .triggerWait (c.outputsAt s 0) ::
        Flip.toInstructions p.periodTicks 0 (c.outputsAt s 0) flips ∧
      ∀ k, c.outputsAt s 0 ^^^ Flip.maskUpTo k flips = c.outputsAt s k := by
  obtain ⟨-, -, -, rfl⟩ := compile_eq_ok.1 h
  have hasc := Flip.merge_ascending (eventFlip_sorted hd hs)
  obtain ⟨h1, h2, h3⟩ := Flip.splitFirst_spec hasc s.defaultOutputs
  simp only [Flip.maskUpTo_merge] at h3
  have hidle := h3 0
  rw [Flip.maskUpTo_of_lt h2, BitVec.xor_zero] at hidle
  refine ⟨_, h1, h2, ?_, fun k => ?_⟩
  · rw [outputsAt, ← hidle]
    rfl
  · rw [outputsAt, ← hidle]
    exact h3 k

end Compiler
end PulseSequencer
