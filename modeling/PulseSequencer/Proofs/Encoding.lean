import PulseSequencer.Proofs.Compile

/-!
Every compiled program has words.

A word of outputs is narrow if it drives only channels that exist.  The default outputs and the
changes of a sequence are narrow, and each step of the compiler keeps them so, which leaves room for
the operation in every word: `fits_of_compile`, `exists_encode`.
-/

namespace PulseSequencer

/-- A word drives only the first `n` channels. -/
def Narrow (n : Nat) (w : Word) : Prop := w.toNat < 2 ^ n

theorem Narrow.zero (n : Nat) : Narrow n 0#32 := Nat.two_pow_pos n

theorem Narrow.xor {n : Nat} {v w : Word} (hv : Narrow n v) (hw : Narrow n w) :
    Narrow n (v ^^^ w) := by
  unfold Narrow
  rw [BitVec.toNat_xor]
  exact Nat.xor_lt_two_pow hv hw

theorem Narrow.or {n : Nat} {v w : Word} (hv : Narrow n v) (hw : Narrow n w) :
    Narrow n (v ||| w) := by
  unfold Narrow
  rw [BitVec.toNat_or]
  exact Nat.or_lt_two_pow hv hw

theorem Narrow.bit {n i : Nat} (hi : i < n) : Narrow n (1#32 <<< i) := by
  unfold Narrow
  rw [BitVec.toNat_shiftLeft, Nat.shiftLeft_eq]
  calc (1#32).toNat * 2 ^ i % 2 ^ 32 ≤ (1#32).toNat * 2 ^ i := Nat.mod_le _ _
    _ = 2 ^ i := Nat.one_mul _
    _ < 2 ^ n := Nat.pow_lt_pow_right (by decide) hi

/-- An instruction for `n` channels: it drives none beyond them, waits no longer than one wait can,
and jumps only to the start. -/
def Instruction.Fits (n : Nat) : Instruction → Prop
  | .triggerWait outputs => Narrow n outputs
  | .wait ticks => ticks.toNat ≤ maxWaitTicks
  | .setOutputs outputs => Narrow n outputs
  | .jump target => target = 0

theorem Instruction.Fits.payload_le {n : Nat} (hn : n ≤ payloadBits) {i : Instruction}
    (h : i.Fits n) : i.payload.toNat ≤ maxPayload := by
  have narrow : ∀ {w : Word}, Narrow n w → w.toNat ≤ maxPayload := fun {w} hw => by
    have := Nat.pow_le_pow_right (show 0 < 2 by decide) hn
    unfold Narrow at hw
    unfold maxPayload
    omega
  cases i with
  | triggerWait outputs => exact narrow h
  | wait ticks => exact h
  | setOutputs outputs => exact narrow h
  | jump target =>
    have h0 : target = 0 := h
    subst h0
    exact Nat.zero_le _

theorem Program.exists_encode {p : Program}
    (h : ∀ i ∈ p.instructions, i.payload.toNat ≤ maxPayload) : ∃ words, p.encode = .ok words := by
  cases he : p.encode with
  | ok words => exact ⟨words, rfl⟩
  | error e =>
    obtain ⟨i, hi, hfail⟩ := Except.mapM_eq_error he
    rw [Instruction.encode, if_pos (h i hi)] at hfail
    cases hfail

/-! ## Waits and flips -/

theorem fits_of_mem_splitWait {n ticks : Nat} {i : Instruction} (h : i ∈ splitWait ticks) :
    i.Fits n := by
  have wait : ∀ {k : Nat}, k ≤ maxWaitTicks → (Instruction.wait (BitVec.ofNat 32 k)).Fits n :=
    fun {k} hk => by
      show (BitVec.ofNat 32 k).toNat ≤ maxWaitTicks
      rw [BitVec.toNat_ofNat]
      exact Nat.le_trans (Nat.mod_le _ _) hk
  unfold splitWait at h
  split at h
  · simp at h
  · rcases List.mem_append.1 h with h | h
    · rw [List.eq_of_mem_replicate h]
      exact wait (Nat.le_refl _)
    · rw [List.mem_singleton.1 h]
      exact wait (Nat.le_of_lt_succ (Nat.mod_lt _ (Nat.succ_pos _)))

namespace Flip

theorem narrow_merge {n : Nat} {flips : List Flip} (h : ∀ f ∈ flips, Narrow n f.mask) :
    ∀ f ∈ merge flips, Narrow n f.mask := by
  induction flips with
  | nil => simp [merge]
  | cons f rest ih =>
    obtain ⟨hf, hrest⟩ := List.forall_mem_cons.1 h
    have ih := ih hrest
    rw [merge]
    cases hm : merge rest with
    | nil => simpa using hf
    | cons g others =>
      rw [hm] at ih
      obtain ⟨hg, hothers⟩ := List.forall_mem_cons.1 ih
      dsimp only
      split
      · exact List.forall_mem_cons.2 ⟨hf.xor hg, hothers⟩
      · exact List.forall_mem_cons.2 ⟨hf, ih⟩

theorem narrow_splitFirst {n : Nat} {outputs : Word} {flips : List Flip} (ho : Narrow n outputs)
    (h : ∀ f ∈ flips, Narrow n f.mask) :
    Narrow n (splitFirst outputs flips).1 ∧
      ∀ f ∈ (splitFirst outputs flips).2, Narrow n f.mask := by
  unfold splitFirst
  split
  · obtain ⟨hf, hrest⟩ := List.forall_mem_cons.1 h
    exact ⟨ho.xor hf, hrest⟩
  · exact ⟨ho, h⟩

/-- **Narrow flips have instructions that fit.** -/
theorem fits_toInstructions {n period : Nat} {flips : List Flip}
    (h : ∀ f ∈ flips, Narrow n f.mask) : ∀ {now : Nat} {outputs : Word}, Narrow n outputs →
      ∀ i ∈ toInstructions period now outputs flips, i.Fits n := by
  have ending : ∀ {ticks : Nat}, ∀ i ∈ splitWait ticks ++ [.jump 0], i.Fits n := by
    intro ticks i hi
    rcases List.mem_append.1 hi with hi | hi
    · exact fits_of_mem_splitWait hi
    · rw [List.mem_singleton.1 hi]
      rfl
  induction flips with
  | nil =>
    intro now outputs _
    exact ending
  | cons f rest ih =>
    obtain ⟨tick, mask⟩ := f
    obtain ⟨hf, hrest⟩ := List.forall_mem_cons.1 h
    intro now outputs ho
    have hnext : Narrow n (outputs ^^^ mask) := ho.xor hf
    simp only [toInstructions]
    split
    · exact ending
    · split
      · exact ih hrest ho
      · intro i hi
        rcases List.mem_append.1 hi with hi | hi
        · exact fits_of_mem_splitWait hi
        · rcases List.mem_cons.1 hi with rfl | hi
          · exact hnext
          · exact ih hrest hnext i hi

end Flip

/-! ## Programs of sequences -/

theorem narrow_foldl_default {n : Nat} : ∀ {l : List Channel} {k : Nat} {w : Word},
    k + l.length ≤ n → Narrow n w →
    Narrow n ((l.zipIdx k).foldl (fun w (c, i) => if c.default then w ||| 1#32 <<< i else w) w)
  | [], _, _, _, hw => hw
  | c :: l, k, w, hk, hw => by
    rw [List.length_cons] at hk
    rw [List.zipIdx_cons, List.foldl_cons]
    refine narrow_foldl_default (by omega) ?_
    dsimp only
    split
    · exact hw.or (.bit (by omega))
    · exact hw

theorem Sequence.narrow_defaultOutputs (s : Sequence) : Narrow s.nchannels s.defaultOutputs :=
  narrow_foldl_default (Nat.le_of_eq (Nat.zero_add _)) (.zero _)

namespace Compiler

theorem narrow_eventFlip (c : Compiler) (s : Sequence) :
    ∀ f ∈ s.events.map (c.eventFlip s), Narrow s.nchannels f.mask := by
  intro f hf
  obtain ⟨⟨t, i⟩, he, rfl⟩ := List.mem_map.1 hf
  obtain ⟨ch, hch, -⟩ := Sequence.mem_events.1 he
  exact .bit (List.getElem?_eq_some_iff.1 hch).1

/-- **The instructions of a compiled program** are for the channels of its sequence. -/
theorem fits_of_compile {c : Compiler} {s : Sequence} {p : Program} (h : c.compile s = .ok p) :
    ∀ i ∈ p.instructions, i.Fits s.nchannels := by
  obtain ⟨-, -, -, rfl⟩ := compile_eq_ok.1 h
  obtain ⟨hidle, hrest⟩ := Flip.narrow_splitFirst s.narrow_defaultOutputs
    (Flip.narrow_merge (c.narrow_eventFlip s))
  intro i hi
  rcases List.mem_cons.1 hi with rfl | hi
  · exact hidle
  · exact Flip.fits_toInstructions hrest hidle i hi

/-- **Every compiled program has words.** -/
theorem exists_encode {c : Compiler} {s : Sequence} {p : Program} (h : c.compile s = .ok p) :
    ∃ words, p.encode = .ok words :=
  Program.exists_encode fun i hi => (fits_of_compile h i hi).payload_le (compile_eq_ok.1 h).1

end Compiler

end PulseSequencer
