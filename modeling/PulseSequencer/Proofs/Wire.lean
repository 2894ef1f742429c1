import PulseSequencer.Proofs.Encoding

/-!
The wire form of programs.

A word is packed from the number of an operation and a payload, and both can be read off it again
(`toNat_operation`, `toNat_payload`).  So a word reads back as an instruction exactly if it is the
word of that instruction (`decode?_eq_some_iff`): no two instructions share a word, and the words of
a program say what its instructions are, in order.
-/

namespace PulseSequencer
namespace Instruction

/-! ## Packing -/

theorem opcode_lt (i : Instruction) : i.opcode < 2 ^ 8 := by
  cases i <;> simp [opcode]

theorem toNat_operation (w : Word) : (w >>> payloadBits).toNat = w.toNat / 2 ^ 24 := by
  rw [BitVec.toNat_ushiftRight, Nat.shiftRight_eq_div_pow]
  rfl

theorem toNat_payload (w : Word) :
    (w &&& BitVec.ofNat 32 maxPayload).toNat = w.toNat % 2 ^ 24 := by
  rw [BitVec.toNat_and]
  exact Nat.and_two_pow_sub_one_eq_mod w.toNat 24

theorem toNat_pack {k : Nat} (hk : k < 2 ^ 8) {payload : Word} (hp : payload.toNat ≤ maxPayload) :
    (BitVec.ofNat 32 k <<< payloadBits ||| payload).toNat = k * 2 ^ 24 + payload.toNat := by
  have hlow : payload.toNat < 2 ^ 24 := Nat.lt_of_le_of_lt hp (by decide)
  have hshift : (BitVec.ofNat 32 k <<< payloadBits).toNat = k <<< 24 := by
    simp only [BitVec.toNat_shiftLeft, BitVec.toNat_ofNat, Nat.shiftLeft_eq, payloadBits]
    omega
  rw [BitVec.toNat_or, hshift, ← Nat.shiftLeft_add_eq_or_of_lt hlow, Nat.shiftLeft_eq]

/-! ## Words of instructions -/

theorem encode_eq_ok {i : Instruction} {w : Word} :
    i.encode = .ok w ↔ i.payload.toNat ≤ maxPayload ∧
      w.toNat = i.opcode * 2 ^ 24 + i.payload.toNat := by
  unfold encode
  by_cases hp : i.payload.toNat ≤ maxPayload
  · rw [if_pos hp, ← toNat_pack i.opcode_lt hp, BitVec.toNat_inj]
    simp only [Except.ok.injEq, hp, true_and]
    exact eq_comm
  · simp [hp]

theorem encode_eq_error_iff {i : Instruction} :
    i.encode = .error ⟨i⟩ ↔ maxPayload < i.payload.toNat := by
  unfold encode
  by_cases hp : i.payload.toNat ≤ maxPayload
  · simp [hp]
  · simp [hp, Nat.lt_of_not_le hp]

theorem decode?_eq_some {w : Word} {i : Instruction} :
    decode? w = some i ↔ (w >>> payloadBits).toNat = i.opcode ∧
      w &&& BitVec.ofNat 32 maxPayload = i.payload := by
  unfold decode?
  cases i <;> dsimp only [opcode, payload] <;> split <;> simp_all

/-- **A word reads back as the instruction it is the word of**, and as no other. -/
theorem decode?_eq_some_iff {w : Word} {i : Instruction} :
    decode? w = some i ↔ i.encode = .ok w := by
  have hmax : maxPayload < 2 ^ 24 := by decide
  rw [decode?_eq_some, encode_eq_ok, toNat_operation, ← BitVec.toNat_inj, toNat_payload]
  have hlt : w.toNat % 2 ^ 24 ≤ maxPayload := Nat.le_sub_one_of_lt (Nat.mod_lt _ (by decide))
  constructor
  · rintro ⟨hop, hpay⟩
    omega
  · rintro ⟨hle, hw⟩
    omega

theorem encode_injective {i j : Instruction} (hi : i.payload.toNat ≤ maxPayload)
    (h : i.encode = j.encode) : i = j := by
  obtain ⟨w, hw⟩ : ∃ w, i.encode = .ok w := by
    rw [encode, if_pos hi]
    exact ⟨_, rfl⟩
  have hj := decode?_eq_some_iff.2 (h ▸ hw)
  rw [decode?_eq_some_iff.2 hw, Option.some.injEq] at hj
  exact hj

end Instruction

/-! ## Words of programs -/

theorem map_decode?_of_mapM_encode : ∀ {code : List Instruction} {words : List Word},
    code.mapM Instruction.encode = Except.ok words →
      words.map Instruction.decode? = code.map some
  | [], words, h => by
    obtain rfl := Except.pure_eq_ok.1 h
    rfl
  | i :: code, words, h => by
    rw [List.mapM_cons] at h
    simp only [Except.bind_eq_ok, Except.pure_eq_ok] at h
    obtain ⟨w, hw, words', hwords, rfl⟩ := h
    rw [List.map_cons, List.map_cons, Instruction.decode?_eq_some_iff.2 hw,
      map_decode?_of_mapM_encode hwords]

/-- The words of a program for `n` channels say what its instructions are. -/
structure Program.Wired (n : Nat) (p : Program) (words : List Word) : Prop where
  payloads : ∀ i ∈ p.instructions, i.payload.toNat < 2 ^ 24
  /-- no channel beyond the last is driven -/
  outputs : ∀ w, .triggerWait w ∈ p.instructions ∨ .setOutputs w ∈ p.instructions →
    w.toNat < 2 ^ n
  encoded : p.encode = .ok words
  decoded : words.map Instruction.decode? = p.instructions.map some

theorem Compiler.exists_wired {c : Compiler} {s : Sequence} {p : Program}
    (h : c.compile s = .ok p) : ∃ words, p.Wired s.nchannels words := by
  have hfits := fits_of_compile h
  have hn := (compile_eq_ok.1 h).1
  obtain ⟨words, hwords⟩ := exists_encode h
  refine ⟨words, fun i hi => ?_, fun w hw => ?_, hwords, map_decode?_of_mapM_encode hwords⟩
  · exact Nat.lt_of_le_of_lt ((hfits i hi).payload_le hn) (by decide)
  · rcases hw with hw | hw
    · exact hfits _ hw
    · exact hfits _ hw

/-- **The wire form is lossless.** The words of a compiled program are in range and read back as its
instructions; whatever an instruction is, it has a word unless its payload is too wide, and a word
of its own. -/
theorem wire_lossless :
    (∀ (c : Compiler) (s : Sequence) (p : Program), c.Accepted → s.Reachable →
      c.compile s = .ok p → ∃ words, p.Wired s.nchannels words) ∧
    (∀ i : Instruction, (∃ w, i.encode = .ok w) ↔ i.payload.toNat ≤ maxPayload) ∧
    (∀ i : Instruction, i.encode = .error ⟨i⟩ ↔ maxPayload < i.payload.toNat) ∧
    (∀ i j : Instruction, i.payload.toNat ≤ maxPayload → j.payload.toNat ≤ maxPayload →
      i.encode = j.encode → i = j) := by
  refine ⟨fun c s p _ _ h => c.exists_wired h, fun i => ⟨?_, fun hi => ?_⟩,
    fun i => Instruction.encode_eq_error_iff, fun i j hi _ h => Instruction.encode_injective hi h⟩
  · rintro ⟨w, hw⟩
    exact (Instruction.encode_eq_ok.1 hw).1
  · rw [Instruction.encode, if_pos hi]
    exact ⟨_, rfl⟩

/-- The last of 24 channels rests high and is pulsed low: its bit is the top bit of the payload. -/
theorem wire_lossless_top_channel :
    let s := Sequence.attempt ⟨(List.replicate 23 false ++ [true]).map Channel.resting,
      Binary64.zero, Binary64.zero⟩ (.addPulse 23 (.ofNat 1) (.ofNat 20000000))
    let c : Compiler := ⟨.ofNat 1, none⟩
    c.Accepted ∧ s.Reachable ∧ s.defaultOutputs = 0x800000#32 ∧
      ∃ p words, c.compile s = .ok p ∧ p.Wired 24 words := by
  intro s c
  have hc : c.Accepted := .ofClockPeriod
    (Compiler.ofClockPeriod_eq_ok.2 ⟨⟨by decide +kernel, by decide +kernel⟩, rfl⟩)
  have hs : s.Reachable := .attempt _
    (@Sequence.Reachable.withDefaults (List.replicate 23 false ++ [true]) _ rfl)
  obtain ⟨p, hp⟩ : ∃ p, c.compile s = .ok p := Compiler.exists_compile_iff.2 (by decide +kernel)
  obtain ⟨words, hw⟩ := wire_lossless.1 c s p hc hs hp
  have hn : s.nchannels = 24 := by decide +kernel
  rw [hn] at hw
  exact ⟨hc, hs, by decide +kernel, p, words, hp, hw⟩

end PulseSequencer
