import PulseSequencer.Proofs.Timeline

/-!
Compiled programs are canonical.

What a program plays already fixes its instructions: those of `Waveform.code` change the outputs
where the waveform changes, once each, and wait in between.  `compile_canonical` says that every
compiled program consists of them, so two of them are equal exactly if they play the same.
-/

namespace PulseSequencer

namespace Waveform

/-- The ticks after `now` at which a waveform changes, before the end of the period. -/
def changes (w : Nat → Word) (period now : Nat) : List Nat :=
  (List.range' (now + 1) (period - (now + 1))).filter fun k => decide (w k ≠ w (k - 1))

/-- Waits up to each of the ticks given and the outputs there, then waits to the end of the
period. -/
def emit (w : Nat → Word) (period now : Nat) : List Nat → List Instruction
  | [] => splitWait (period - now)
  | k :: later => splitWait (k - now) ++ .setOutputs (w k) :: emit w period k later

/-- The canonical instructions that drive `idle` before the trigger and then hold the outputs
given, one for each tick. -/
def code (idle : Word) (held : List Word) : List Instruction :=
  let w := fun k => held.getD k 0#32
  .triggerWait idle :: emit w held.length 0 (changes w held.length 0) ++ [.jump 0]

theorem changes_eq_nil {w : Nat → Word} {period now : Nat}
    (h : ∀ k, now < k → k < period → w k = w (k - 1)) : changes w period now = [] := by
  rw [changes, List.filter_eq_nil_iff]
  intro k hk
  rw [List.mem_range'_1] at hk
  simp [h k (by omega) (by omega)]

theorem changes_eq_cons {w : Nat → Word} {period now tick : Nat} (hnow : now < tick)
    (htick : tick < period) (hsame : ∀ k, now < k → k < tick → w k = w (k - 1))
    (hchange : w tick ≠ w (tick - 1)) :
    changes w period now = tick :: changes w period tick := by
  have hsplit : List.range' (now + 1) (period - (now + 1)) =
      List.range' (now + 1) (tick - (now + 1)) ++
        tick :: List.range' (tick + 1) (period - (tick + 1)) := by
    rw [← List.range'_succ]
    have := List.range'_append_1 (s := now + 1) (m := tick - (now + 1))
      (n := period - (tick + 1) + 1)
    rw [show now + 1 + (tick - (now + 1)) = tick by omega,
      show tick - (now + 1) + (period - (tick + 1) + 1) = period - (now + 1) by omega] at this
    exact this.symm
  have hbefore := @changes_eq_nil w tick now hsame
  unfold changes at hbefore ⊢
  rw [hsplit, List.filter_append, hbefore, List.nil_append, List.filter_cons_of_pos]
  simp [hchange]

theorem emit_congr {w w' : Nat → Word} {period : Nat} : ∀ {ticks : List Nat} {now : Nat},
    (∀ k ∈ ticks, w k = w' k) → emit w period now ticks = emit w' period now ticks
  | [], _, _ => rfl
  | k :: later, now, h => by
    rw [emit, emit, h k (by simp), emit_congr fun j hj => h j (by simp [hj])]

theorem emit_changes_congr {w w' : Nat → Word} {period now : Nat}
    (h : ∀ k, now ≤ k → k < period → w k = w' k) :
    emit w period now (changes w period now) = emit w' period now (changes w' period now) := by
  have hchanges : changes w period now = changes w' period now := by
    refine List.filter_congr fun k hk => ?_
    rw [List.mem_range'_1] at hk
    rw [h k (by omega) (by omega), h (k - 1) (by omega) (by omega)]
  rw [hchanges]
  refine emit_congr fun k hk => ?_
  have := (List.mem_range'_1.1 (List.mem_filter.1 hk).1)
  exact h k (by omega) (by omega)

end Waveform

namespace Flip

open Waveform (emit changes)

/-- **The instructions of flips are those of their waveform.** -/
theorem toInstructions_eq_emit {period : Nat} {flips : List Flip} (hasc : Ascending flips) :
    ∀ {now : Nat} (outputs : Word), (∀ f ∈ flips, now < f.tick) →
      let w := fun k => outputs ^^^ maskUpTo k flips
      toInstructions period now outputs flips =
        emit w period now (changes w period now) ++ [.jump 0] := by
  induction flips with
  | nil =>
    intro now outputs _ w
    rw [Waveform.changes_eq_nil fun k _ _ => rfl]
    rfl
  | cons f rest ih =>
    obtain ⟨tick, mask⟩ := f
    obtain ⟨hlater, hrest⟩ := List.pairwise_cons.1 hasc
    intro now outputs hnow w
    have htick : now < tick := hnow ⟨tick, mask⟩ (by simp)
    have hbefore : ∀ k, k < tick → w k = outputs := fun k hk =>
      xor_maskUpTo_of_lt (fun g hg => by
        rcases List.mem_cons.1 hg with rfl | hg
        · exact hk
        · exact Nat.lt_trans hk (hlater g hg)) outputs
    have hfrom : ∀ k, tick ≤ k → w k = outputs ^^^ mask ^^^ maskUpTo k rest := fun k hk =>
      xor_maskUpTo_cons hk mask outputs rest
    simp only [toInstructions]
    split
    · rename_i hend
      rw [Waveform.changes_eq_nil fun k _ hk => by rw [hbefore k (by omega), hbefore _ (by omega)]]
      rfl
    · rename_i hin
      split
      · rename_i hsame
        rw [ih hrest outputs fun g hg => Nat.lt_trans htick (hlater g hg)]
        congr 1
        refine Waveform.emit_changes_congr fun k _ _ => ?_
        rcases Nat.lt_or_ge k tick with hk | hk
        · rw [hbefore k hk, xor_maskUpTo_of_lt fun g hg => Nat.lt_trans hk (hlater g hg)]
        · rw [hfrom k hk, hsame]
      · rename_i hchange
        have hat : w tick = outputs ^^^ mask := by
          rw [hfrom tick (Nat.le_refl _), xor_maskUpTo_of_lt hlater]
        have hcons : changes w period now = tick :: changes w period tick := by
          refine Waveform.changes_eq_cons htick (by omega) (fun k _ hk => ?_) ?_
          · rw [hbefore k hk, hbefore _ (by omega)]
          · rw [hat, hbefore _ (by omega)]
            exact hchange
        have htail : emit w period tick (changes w period tick) = _ :=
          Waveform.emit_changes_congr fun k hk _ => hfrom k hk
        rw [hcons, emit, hat, htail, ih hrest _ hlater]
        simp

theorem not_mem_waits {ticks : Nat} {v : Word} : .setOutputs v ∉ splitWait ticks := fun h => by
  obtain ⟨n, hn⟩ := eq_wait_of_mem_splitWait h
  cases hn

theorem eq_or_after_of_append {ticks : Nat} {rest pre post : List Instruction} {a b : Word}
    (h : splitWait ticks ++ .setOutputs a :: rest = pre ++ .setOutputs b :: post) :
    (pre = splitWait ticks ∧ a = b ∧ rest = post) ∨
      ∃ mid, pre = splitWait ticks ++ .setOutputs a :: mid ∧
        rest = mid ++ .setOutputs b :: post := by
  rcases List.append_eq_append_iff.1 h with ⟨mid, hpre, hrest⟩ | ⟨mid, hwaits, hrest⟩
  · cases mid with
    | nil =>
      simp only [List.nil_append, List.cons.injEq, Instruction.setOutputs.injEq] at hrest
      exact .inl ⟨by rw [hpre, List.append_nil], hrest⟩
    | cons i mid =>
      simp only [List.cons_append, List.cons.injEq] at hrest
      exact .inr ⟨mid, by rw [hpre, hrest.1], hrest.2⟩
  · cases mid with
    | nil =>
      simp only [List.nil_append, List.cons.injEq, Instruction.setOutputs.injEq] at hrest
      exact .inl ⟨by rw [hwaits, List.append_nil], hrest.1.symm, hrest.2.symm⟩
    | cons i mid =>
      simp only [List.cons_append, List.cons.injEq] at hrest
      have : .setOutputs b ∈ splitWait ticks := by rw [hwaits, ← hrest.1]; simp
      exact absurd this not_mem_waits

/-- Every change of outputs in the instructions of flips drives new outputs, after at least one
tick since the start and since the change before it. -/
theorem setOutputs_of_toInstructions {period : Nat} {flips : List Flip} (hasc : Ascending flips) :
    ∀ {now : Nat} {outputs v : Word} {pre post : List Instruction}, (∀ f ∈ flips, now < f.tick) →
      toInstructions period now outputs flips = pre ++ .setOutputs v :: post →
      Player.latched outputs pre ≠ v ∧ 0 < Player.ticks pre ∧
        ∀ pre' a mid, pre = pre' ++ .setOutputs a :: mid →
          0 < Player.ticks mid := by
  have ending : ∀ {ticks : Nat} {v : Word} {pre post : List Instruction},
      splitWait ticks ++ [.jump 0] ≠ pre ++ .setOutputs v :: post := fun {ticks v pre post} h => by
    have : .setOutputs v ∈ splitWait ticks ++ [.jump 0] := by rw [h]; simp
    simp [not_mem_waits] at this
  induction flips with
  | nil =>
    intro now outputs v pre post _ h
    exact absurd h ending
  | cons f rest ih =>
    obtain ⟨tick, mask⟩ := f
    obtain ⟨hlater, hrest⟩ := List.pairwise_cons.1 hasc
    intro now outputs v pre post hnow h
    have htick : now < tick := hnow ⟨tick, mask⟩ (by simp)
    simp only [toInstructions] at h
    split at h
    · exact absurd h ending
    · split at h
      · exact ih hrest (fun g hg => Nat.lt_trans htick (hlater g hg)) h
      · rename_i hchange
        rcases eq_or_after_of_append h with ⟨rfl, rfl, -⟩ | ⟨mid, rfl, hmid⟩
        · rw [latched_splitWait, ticks_splitWait]
          refine ⟨fun h => hchange h.symm, by omega, fun pre' a mid heq => ?_⟩
          have : .setOutputs a ∈ splitWait (tick - now) := by rw [heq]; simp
          exact absurd this not_mem_waits
        · obtain ⟨hnew, hsum, hafter⟩ := ih hrest hlater hmid
          refine ⟨?_, ?_, fun pre' a mid' heq => ?_⟩
          · rwa [Player.latched_append, latched_splitWait]
          · rw [Player.ticks_append, ticks_splitWait]
            omega
          · rcases eq_or_after_of_append heq with ⟨-, -, rfl⟩ | ⟨mid'', -, hmid''⟩
            · exact hsum
            · exact hafter _ _ _ hmid''

end Flip

namespace Compiler

/-- The program is the canonical one for the outputs it waits with and those it holds. -/
structure Canonical (p : Program) (idle : Word) (held : List Word) : Prop where
  /-- what is held is what every loop holds -/
  loop_iff : ∀ n h, Player.Loop p.instructions n h ↔ h = held
  lasts : held.length = p.periodTicks
  /-- a loop begins with the outputs that waited for the trigger -/
  first : 0 < p.periodTicks → held[0]? = some idle
  code_eq : p.instructions = Waveform.code idle held
  /-- no change of outputs finds its outputs latched -/
  fresh : ∀ m v, Player.Visits p.instructions m →
    p.instructions[m.index]? = some (.setOutputs v) → m.outputs ≠ v
  /-- and there is a tick before each change, since the trigger and since any earlier one -/
  spaced : ∀ pre v post, p.instructions = pre ++ .setOutputs v :: post →
    0 < Player.ticks pre ∧
      ∀ pre' a mid, pre = pre' ++ .setOutputs a :: mid → 0 < Player.ticks mid

theorem canonical_of_compile {c : Compiler} (hd : c.dt.Positive) {s : Sequence} (hs : s.WellFormed)
    {p : Program} (h : c.compile s = .ok p) :
    Canonical p (c.outputsAt s 0) ((List.range p.periodTicks).map (c.outputsAt s)) where
  loop_iff n held := loop_compile_iff hd hs h n held
  lasts := by simp
  first hpos := by simp [hpos]
  code_eq := by
    obtain ⟨flips, hasc, hpos, hcode, hwave⟩ := compile_flips hd hs h
    rw [hcode, Flip.toInstructions_eq_emit hasc _ hpos, Waveform.code]
    simp only [hwave, List.length_map, List.length_range, List.cons_append]
    congr 2
    refine Waveform.emit_changes_congr fun k _ hk => ?_
    simp [hk]
  fresh m v hm hat := by
    obtain ⟨flips, hasc, hpos, hcode, -⟩ := compile_flips hd hs h
    obtain ⟨body, hbody, hon⟩ :=
      Flip.toInstructions_straight p.periodTicks 0 (c.outputsAt s 0) flips
    have hcode' : p.instructions = .triggerWait (c.outputsAt s 0) :: body ++ [.jump 0] := by
      rw [hcode, hbody]
      rfl
    rcases Player.visits_cases hcode' hon hm with h0 | ⟨h0, hle, hout⟩
    · rw [h0, hcode'] at hat
      cases hat
    · obtain ⟨i, hi⟩ : ∃ i, m.index = i + 1 := ⟨m.index - 1, by omega⟩
      rw [hi, hcode, List.getElem?_cons_succ] at hat
      obtain ⟨hlt, hat⟩ := List.getElem?_eq_some_iff.1 hat
      have hsplit := List.take_append_drop i
        (Flip.toInstructions p.periodTicks 0 (c.outputsAt s 0) flips)
      rw [List.drop_eq_getElem_cons hlt, hat] at hsplit
      have hnew := (Flip.setOutputs_of_toInstructions hasc hpos hsplit.symm).1
      rw [hbody, List.take_append_of_le_length (by omega)] at hnew
      rw [hout, hi]
      exact hnew
  spaced pre v post hsplit := by
    obtain ⟨flips, hasc, hpos, hcode, -⟩ := compile_flips hd hs h
    rw [hcode] at hsplit
    cases pre with
    | nil => simp at hsplit
    | cons i pre =>
      simp only [List.cons_append, List.cons.injEq] at hsplit
      obtain ⟨rfl, hsplit⟩ := hsplit
      obtain ⟨-, hsum, hafter⟩ := Flip.setOutputs_of_toInstructions hasc hpos hsplit
      refine ⟨by simpa [Player.ticks, Instruction.elapsed] using hsum, fun pre' a mid heq => ?_⟩
      cases pre' with
      | nil => simp at heq
      | cons j pre' =>
        simp only [List.cons_append, List.cons.injEq] at heq
        exact hafter pre' a mid heq.2

/-- **Compiled programs are canonical**, and so two of them are equal exactly if they have the same
period, wait for the trigger with the same outputs and hold the same ones in every tick. -/
theorem compile_canonical {c c' : Compiler} {s s' : Sequence} {p p' : Program}
    (hc : c.Accepted) (hs : s.Reachable) (h : c.compile s = .ok p)
    (hc' : c'.Accepted) (hs' : s'.Reachable) (h' : c'.compile s' = .ok p') :
    ∃ idle held idle' held', Canonical p idle held ∧ Canonical p' idle' held' ∧
      (p.instructions = p'.instructions ↔
        p.periodTicks = p'.periodTicks ∧ idle = idle' ∧ held = held') := by
  have hp := canonical_of_compile hc.positive hs.wellFormed h
  have hp' := canonical_of_compile hc'.positive hs'.wellFormed h'
  refine ⟨_, _, _, _, hp, hp', fun heq => ?_, fun ⟨_, hidle, hheld⟩ => ?_⟩
  · have hheld := (hp'.loop_iff 0 _).1 (heq ▸ (hp.loop_iff 0 _).2 rfl)
    have hidle : c.outputsAt s 0 = c'.outputsAt s' 0 := by
      have hhead := congrArg List.head? heq
      rw [hp.code_eq, hp'.code_eq] at hhead
      simpa [Waveform.code] using hhead
    refine ⟨?_, hidle, hheld⟩
    rw [← hp.lasts, ← hp'.lasts, hheld]
  · rw [hp.code_eq, hp'.code_eq, hidle, hheld]

/-- With a clock of one second, pulses from 1 to 3 and from 1.2 to 3.2 seconds have one program. -/
theorem compile_canonical_jitter :
    let c : Compiler := ⟨.ofNat 1, none⟩
    let fresh : Sequence := ⟨[Channel.resting false], Binary64.zero, Binary64.zero⟩
    let s := fresh.attempt (.addPulse 0 (.ofNat 1) (.ofNat 2))
    let s' := fresh.attempt (.addPulse 0 (.ofRatio false 12 10) (.ofNat 2))
    c.Accepted ∧ s.Reachable ∧ s'.Reachable ∧ s ≠ s' ∧
      ∃ p p', c.compile s = .ok p ∧ c.compile s' = .ok p' ∧ p.instructions = p'.instructions ∧
        ∃ idle held idle' held', Canonical p idle held ∧ Canonical p' idle' held' ∧
          idle = idle' ∧ held = held' := by
  intro c fresh s s'
  have hc : c.Accepted :=
    .ofClockPeriod (ofClockPeriod_eq_ok.2 ⟨⟨by decide +kernel, by decide +kernel⟩, rfl⟩)
  have hs : s.Reachable := .attempt _ (.ofCount (n := 1) rfl)
  have hs' : s'.Reachable := .attempt _ (.ofCount (n := 1) rfl)
  obtain ⟨p, hp⟩ : ∃ p, c.compile s = .ok p := exists_compile_iff.2 (by decide +kernel)
  obtain ⟨p', hp'⟩ : ∃ p', c.compile s' = .ok p' := exists_compile_iff.2 (by decide +kernel)
  have hsame : p.instructions = p'.instructions := by
    have hevents : s.events = [(.ofNat 1, 0), (.ofNat 3, 0)] := by
      rw [Sequence.events, List.mergeSort_of_pairwise] <;> decide +kernel
    have hevents' : s'.events = [(.ofRatio false 12 10, 0), (.ofRatio false 32 10, 0)] := by
      rw [Sequence.events, List.mergeSort_of_pairwise] <;> decide +kernel
    obtain ⟨-, -, -, rfl⟩ := compile_eq_ok.1 hp
    obtain ⟨-, -, -, rfl⟩ := compile_eq_ok.1 hp'
    rw [hevents, hevents']
    decide +kernel
  obtain ⟨idle, held, idle', held', hcan, hcan', hiff⟩ := compile_canonical hc hs hp hc hs' hp'
  obtain ⟨-, hidle, hheld⟩ := hiff.1 hsame
  exact ⟨hc, hs, hs', by decide +kernel, p, p', hp, hp', hsame, idle, held, idle', held', hcan,
    hcan', hidle, hheld⟩

end Compiler

end PulseSequencer
