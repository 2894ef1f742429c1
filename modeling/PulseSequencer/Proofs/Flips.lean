import PulseSequencer.Compiler
import PulseSequencer.Proofs.Playback

/-!
What the instructions made from flips play.

A list of flips stands for a waveform: at tick `k` the outputs differ from those at the start by
the changes of all flips up to `k` (`maskUpTo`).  Joining neighbours at the same tick keeps it
(`maskUpTo_merge`), and if the ticks do not decrease the joined ones increase
(`merge_ascending`).  For flips with increasing ticks the instructions hold exactly that waveform
(`held_toInstructions`).
-/

namespace PulseSequencer

open Player (held latched latch GoesOn)

/-! ## Waits -/

theorem elapsed_wait {ticks : Nat} (h : ticks < 2 ^ 32) :
    (Instruction.wait (BitVec.ofNat 32 ticks)).elapsed = ticks + 1 := by
  simp only [Instruction.elapsed, BitVec.toNat_ofNat]
  rw [Nat.mod_eq_of_lt h]

theorem splitWait_spec (ticks : Nat) (w : Word) :
    held w (splitWait ticks) = List.replicate ticks w ∧ latched w (splitWait ticks) = w := by
  have hwaits : ∀ (n : Nat) (code : List Instruction),
      held w (List.replicate n (.wait (BitVec.ofNat 32 maxWaitTicks)) ++ code) =
        List.replicate (n * (maxWaitTicks + 1)) w ++ held w code ∧
      latched w (List.replicate n (.wait (BitVec.ofNat 32 maxWaitTicks)) ++ code) =
        latched w code := by
    intro n code
    induction n with
    | zero => simp
    | succ n ih =>
      simp only [List.replicate_succ, List.cons_append, held, latch, Player.latched_cons]
      rw [ih.1, elapsed_wait (by decide), ← List.append_assoc, List.replicate_append_replicate,
        Nat.succ_mul, Nat.add_comm (maxWaitTicks + 1)]
      exact ⟨rfl, ih.2⟩
  unfold splitWait
  split
  · rename_i h
    subst h
    exact ⟨rfl, rfl⟩
  · rename_i h
    have hdm := Nat.div_add_mod (ticks - 1) (maxWaitTicks + 1)
    have hlt : (ticks - 1) % (maxWaitTicks + 1) < 2 ^ 32 :=
      Nat.lt_of_lt_of_le (Nat.mod_lt _ (Nat.succ_pos _)) (by decide)
    rw [(hwaits _ _).1, (hwaits _ _).2]
    refine ⟨?_, rfl⟩
    simp only [held, elapsed_wait hlt, List.append_nil]
    rw [List.replicate_append_replicate]
    congr 1
    rw [Nat.mul_comm] at hdm
    omega

theorem held_splitWait (ticks : Nat) (w : Word) :
    held w (splitWait ticks) = List.replicate ticks w := (splitWait_spec ticks w).1

theorem latched_splitWait (ticks : Nat) (w : Word) : latched w (splitWait ticks) = w :=
  (splitWait_spec ticks w).2

theorem ticks_splitWait (ticks : Nat) : Player.ticks (splitWait ticks) = ticks := by
  rw [← Player.held_length 0#32, held_splitWait, List.length_replicate]

theorem length_splitWait (ticks : Nat) :
    (splitWait ticks).length = (ticks + maxWaitTicks) / (maxWaitTicks + 1) := by
  unfold splitWait
  split
  · rename_i h
    subst h
    rfl
  · rename_i h
    rw [List.length_append, List.length_replicate, List.length_singleton,
      ← Nat.add_div_right _ (Nat.succ_pos _)]
    congr 1
    omega

theorem eq_wait_of_mem_splitWait {ticks : Nat} {i : Instruction} (h : i ∈ splitWait ticks) :
    ∃ n, i = .wait n := by
  unfold splitWait at h
  split at h
  · simp at h
  · rcases List.mem_append.1 h with h | h
    · exact ⟨_, List.eq_of_mem_replicate h⟩
    · exact ⟨_, List.mem_singleton.1 h⟩

namespace Flip

/-! ## The waveform of flips -/

/-- The channels changed an odd number of times up to a tick. -/
def maskUpTo (k : Nat) : List Flip → Word
  | [] => 0#32
  | f :: rest => (if f.tick ≤ k then f.mask else 0#32) ^^^ maskUpTo k rest

/-- The ticks increase from flip to flip. -/
def Ascending (flips : List Flip) : Prop := flips.Pairwise fun f g => f.tick < g.tick

theorem maskUpTo_of_lt {k : Nat} {flips : List Flip} (h : ∀ f ∈ flips, k < f.tick) :
    maskUpTo k flips = 0#32 := by
  induction flips with
  | nil => rfl
  | cons f rest ih =>
    have hf : ¬ f.tick ≤ k := Nat.not_le.2 (h f (by simp))
    rw [maskUpTo, if_neg hf, ih fun g hg => h g (by simp [hg])]
    rfl

theorem xor_maskUpTo_of_lt {k : Nat} {flips : List Flip} (h : ∀ f ∈ flips, k < f.tick)
    (outputs : Word) : outputs ^^^ maskUpTo k flips = outputs := by
  rw [maskUpTo_of_lt h, BitVec.xor_zero]

theorem xor_maskUpTo_cons {k tick : Nat} (hk : tick ≤ k) (mask outputs : Word) (rest : List Flip) :
    outputs ^^^ maskUpTo k (⟨tick, mask⟩ :: rest) = outputs ^^^ mask ^^^ maskUpTo k rest := by
  simp only [maskUpTo, if_pos hk, BitVec.xor_assoc]

theorem getLsbD_maskUpTo (k i : Nat) (flips : List Flip) : (maskUpTo k flips).getLsbD i =
    ((flips.countP fun f => decide (f.tick ≤ k) && f.mask.getLsbD i) % 2 == 1) := by
  induction flips with
  | nil => simp [maskUpTo]
  | cons f rest ih =>
    rw [maskUpTo, BitVec.getLsbD_xor, ih, List.countP_cons]
    generalize List.countP _ rest = n
    by_cases hf : f.tick ≤ k
    · cases hb : f.mask.getLsbD i with
      | false => simp [hf, hb]
      | true =>
        simp only [hf, decide_true, Bool.and_true, if_true, hb]
        grind
    · simp [hf]

/-- **Joining neighbours at the same tick keeps the waveform.** -/
theorem maskUpTo_merge (k : Nat) (flips : List Flip) :
    maskUpTo k (merge flips) = maskUpTo k flips := by
  induction flips with
  | nil => rfl
  | cons f rest ih =>
    rw [merge]
    cases hm : merge rest with
    | nil =>
      rw [hm] at ih
      simp only [maskUpTo, ← ih]
    | cons g others =>
      rw [hm] at ih
      simp only [maskUpTo] at ih
      dsimp only
      split
      · rename_i heq
        simp only [maskUpTo, ← ih, ← heq]
        split
        · rw [BitVec.xor_assoc]
        · simp
      · simp only [maskUpTo, ← ih]

theorem tick_of_mem_merge {flips : List Flip} {g : Flip} (h : g ∈ merge flips) :
    ∃ f ∈ flips, f.tick = g.tick := by
  induction flips generalizing g with
  | nil => simp [merge] at h
  | cons f rest ih =>
    have later : ∀ {g}, g ∈ merge rest → ∃ f' ∈ f :: rest, f'.tick = g.tick := fun hg => by
      obtain ⟨f', hf', he⟩ := ih hg
      exact ⟨f', by simp [hf'], he⟩
    rw [merge] at h
    cases hm : merge rest with
    | nil =>
      simp only [hm, List.mem_singleton] at h
      exact ⟨f, by simp, by rw [h]⟩
    | cons g' others =>
      simp only [hm] at h
      split at h
      · rcases List.mem_cons.1 h with rfl | h
        · exact ⟨f, by simp, rfl⟩
        · exact later (by rw [hm]; simp [h])
      · rcases List.mem_cons.1 h with rfl | h
        · exact ⟨g, by simp, rfl⟩
        · exact later (by rw [hm]; exact h)

/-- **Joined flips have increasing ticks**, if the ticks did not decrease. -/
theorem merge_ascending {flips : List Flip} (h : flips.Pairwise fun f g => f.tick ≤ g.tick) :
    Ascending (merge flips) := by
  unfold Ascending
  induction flips with
  | nil => exact .nil
  | cons f rest ih =>
    obtain ⟨hf, hrest⟩ := List.pairwise_cons.1 h
    have ih := ih hrest
    have hle : ∀ g ∈ merge rest, f.tick ≤ g.tick := fun g hg => by
      obtain ⟨f', hf', he⟩ := tick_of_mem_merge hg
      rw [← he]
      exact hf f' hf'
    rw [merge]
    cases hm : merge rest with
    | nil => simp
    | cons g others =>
      rw [hm] at ih hle
      obtain ⟨hg, hothers⟩ := List.pairwise_cons.1 ih
      dsimp only
      split
      · rename_i heq
        refine List.pairwise_cons.2 ⟨fun u hu => ?_, hothers⟩
        have := hg u hu
        dsimp only
        omega
      · rename_i hne
        have hfg := hle g (by simp)
        refine List.pairwise_cons.2 ⟨fun u hu => ?_, ih⟩
        rcases List.mem_cons.1 hu with rfl | hu
        · omega
        · have := hg u hu
          omega

/-- Taking the changes at tick zero out of the flips keeps the waveform. -/
theorem splitFirst_spec {flips : List Flip} (h : Ascending flips) (outputs : Word) :
    Ascending (splitFirst outputs flips).2 ∧
    (∀ f ∈ (splitFirst outputs flips).2, 0 < f.tick) ∧
    ∀ k, (splitFirst outputs flips).1 ^^^ maskUpTo k (splitFirst outputs flips).2 =
      outputs ^^^ maskUpTo k flips := by
  unfold splitFirst
  split
  · rename_i mask rest
    obtain ⟨hfirst, hrest⟩ := List.pairwise_cons.1 h
    refine ⟨hrest, fun f hf => hfirst f hf, fun k => ?_⟩
    simp only [maskUpTo, Nat.zero_le, if_true]
    rw [BitVec.xor_assoc]
  · rename_i hne
    refine ⟨h, fun f hf => ?_, fun k => rfl⟩
    cases flips with
    | nil => simp at hf
    | cons g rest =>
      obtain ⟨tick, mask⟩ := g
      have hpos : 0 < tick := Nat.pos_of_ne_zero fun h0 => hne mask rest (by rw [h0])
      rcases List.mem_cons.1 hf with rfl | hf
      · exact hpos
      · exact Nat.lt_trans hpos ((List.pairwise_cons.1 h).1 f hf)

/-! ## The instructions of flips -/

theorem map_range'_of_lt {flips : List Flip} (outputs : Word) {now ticks : Nat}
    (h : ∀ f ∈ flips, now + ticks ≤ f.tick) :
    (List.range' now ticks).map (fun k => outputs ^^^ maskUpTo k flips) =
      List.replicate ticks outputs := by
  have hconst : ∀ k ∈ List.range' now ticks, outputs ^^^ maskUpTo k flips = outputs := by
    intro k hk
    rw [List.mem_range'_1] at hk
    exact xor_maskUpTo_of_lt (fun f hf => Nat.lt_of_lt_of_le hk.2 (h f hf)) outputs
  rw [List.map_congr_left hconst, List.map_const', List.length_range']

/-- **The instructions of flips hold their waveform**, from the tick reached to the end of the
period. -/
theorem held_toInstructions {period : Nat} {flips : List Flip} (hasc : Ascending flips) :
    ∀ {now : Nat} (outputs : Word), (∀ f ∈ flips, now < f.tick) → now ≤ period →
      held outputs (toInstructions period now outputs flips) =
        (List.range' now (period - now)).map fun k => outputs ^^^ maskUpTo k flips := by
  have ending : ∀ (now : Nat) (outputs : Word),
      held outputs (splitWait (period - now) ++ [.jump 0]) =
        List.replicate (period - now) outputs := by
    intro now outputs
    rw [Player.held_append, held_splitWait]
    simp [held, Instruction.elapsed]
  induction flips with
  | nil =>
    intro now outputs _ hle
    rw [toInstructions, ending, map_range'_of_lt outputs (by simp)]
  | cons f rest ih =>
    obtain ⟨tick, mask⟩ := f
    obtain ⟨hfirst, hrest⟩ := List.pairwise_cons.1 hasc
    intro now outputs hnow hle
    have htick : now < tick := hnow ⟨tick, mask⟩ (by simp)
    have hlater : ∀ g ∈ rest, tick < g.tick := hfirst
    simp only [toInstructions]
    split
    · rename_i hend
      rw [ending, map_range'_of_lt]
      intro g hg
      rcases List.mem_cons.1 hg with rfl | hg
      · dsimp only; omega
      · have := hlater g hg; omega
    · rename_i hin
      split
      · rename_i hsame
        rw [ih hrest outputs (fun g hg => Nat.lt_trans htick (hlater g hg)) hle]
        refine List.map_congr_left fun k _ => ?_
        rcases Nat.lt_or_ge k tick with hk | hk
        · simp only [maskUpTo, if_neg (Nat.not_le.2 hk)]
          simp
        · rw [xor_maskUpTo_cons hk, hsame]
      · rw [Player.held_append, held_splitWait, latched_splitWait]
        simp only [held, latch, Instruction.elapsed, List.replicate_zero, List.nil_append]
        rw [ih hrest _ hlater (by omega)]
        have hsplit : List.range' now (period - now) =
            List.range' now (tick - now) ++ List.range' tick (period - tick) := by
          have := List.range'_append_1 (s := now) (m := tick - now) (n := period - tick)
          rw [show now + (tick - now) = tick by omega,
            show tick - now + (period - tick) = period - now by omega] at this
          exact this.symm
        have hbefore : ∀ g ∈ (⟨tick, mask⟩ : Flip) :: rest, now + (tick - now) ≤ g.tick := by
          intro g hg
          rcases List.mem_cons.1 hg with rfl | hg
          · dsimp only; omega
          · have := hlater g hg; omega
        rw [hsplit, List.map_append, map_range'_of_lt outputs hbefore]
        congr 1
        refine List.map_congr_left fun k hk => ?_
        rw [List.mem_range'_1] at hk
        exact (xor_maskUpTo_cons hk.1 mask outputs rest).symm

theorem toInstructions_straight (period now : Nat) (outputs : Word) (flips : List Flip) :
    ∃ body, toInstructions period now outputs flips = body ++ [.jump 0] ∧ ∀ i ∈ body, GoesOn i := by
  have waits : ∀ {ticks : Nat} {i : Instruction}, i ∈ splitWait ticks → GoesOn i := fun h => by
    obtain ⟨n, rfl⟩ := eq_wait_of_mem_splitWait h
    trivial
  induction flips generalizing now outputs with
  | nil => exact ⟨_, rfl, fun i hi => waits hi⟩
  | cons f rest ih =>
    obtain ⟨tick, mask⟩ := f
    simp only [toInstructions]
    split
    · exact ⟨_, rfl, fun i hi => waits hi⟩
    · split
      · exact ih now outputs
      · obtain ⟨body, hbody, hon⟩ := ih tick (outputs ^^^ mask)
        refine ⟨splitWait (tick - now) ++ .setOutputs (outputs ^^^ mask) :: body, ?_,
          fun i hi => ?_⟩
        · rw [hbody]
          simp
        · rcases List.mem_append.1 hi with hi | hi
          · exact waits hi
          · rcases List.mem_cons.1 hi with rfl | hi
            · trivial
            · exact hon i hi

end Flip
end PulseSequencer
