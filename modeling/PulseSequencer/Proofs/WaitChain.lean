import Mathlib.Algebra.Order.Floor.Div
import PulseSequencer.Proofs.Flips

/-!
Chains of waits.

`splitWait` gives a chain of waits at once.  A machine makes it in a loop over 64-bit words: as long
as more is left than one wait can take, it appends a full wait, and at the end it cuts what is left
to the 32 bits of a wait.  `waitLoop?` is that loop, with a check that the cut takes off zeros only.
A turn of the loop moves one full wait from what is left to what is made (`splitWait_of_lt`), so
both together stay the same chain, and the check passes (`waitLoop?_eq_some`).

No wait takes more than a full one, so the ticks bound the number of waits from below
(`Fills.ticks_le`), and `splitWait` has no more than that: `waitLoop?_shortest`.
-/

namespace PulseSequencer

/-! ## The loop -/

/-- The lower half of a 64-bit word, if the upper half is zero. -/
def narrow? (x : BitVec 64) : Option Word :=
  if (x.setWidth 32).toNat = x.toNat then some (x.setWidth 32) else none

/-- The clock ticks of the longest wait, as a 64-bit word. -/
def waitSpan : BitVec 64 := BitVec.ofNat 64 (maxWaitTicks + 1)

theorem toNat_waitSpan : waitSpan.toNat = maxWaitTicks + 1 := by decide

theorem toNat_sub_waitSpan {remaining : BitVec 64} (h : waitSpan < remaining) :
    (remaining - waitSpan).toNat = remaining.toNat - (maxWaitTicks + 1) := by
  rw [BitVec.toNat_sub_of_le (BitVec.le_of_lt h), toNat_waitSpan]

/-- The loop of a machine: `chain` is made already and `remaining` ticks are left. -/
def waitLoop? (chain : List Instruction) (remaining : BitVec 64) : Option (List Instruction) :=
  if waitSpan < remaining then
    waitLoop? (chain ++ [.wait (BitVec.ofNat 32 maxWaitTicks)]) (remaining - waitSpan)
  else if 0#64 < remaining then do
    return chain ++ [.wait (← narrow? (remaining - 1#64))]
  else some chain
termination_by remaining.toNat
decreasing_by
  rename_i h
  rw [toNat_sub_waitSpan h]
  have := BitVec.lt_def.1 h
  omega

theorem splitWait_of_lt {ticks : Nat} (h : maxWaitTicks + 1 < ticks) :
    splitWait ticks =
      .wait (BitVec.ofNat 32 maxWaitTicks) :: splitWait (ticks - (maxWaitTicks + 1)) := by
  obtain ⟨rest, rfl⟩ : ∃ rest, ticks = rest + 1 + (maxWaitTicks + 1) :=
    ⟨ticks - 1 - (maxWaitTicks + 1), by omega⟩
  have hless : rest + 1 + (maxWaitTicks + 1) - 1 = rest + (maxWaitTicks + 1) := by omega
  rw [Nat.add_sub_cancel]
  unfold splitWait
  rw [if_neg (by omega), if_neg (by omega), hless, Nat.add_sub_cancel,
    Nat.add_div_right _ (Nat.succ_pos _), Nat.add_mod_right, List.replicate_succ, List.cons_append]

theorem splitWait_of_le {ticks : Nat} (hpos : 0 < ticks) (h : ticks ≤ maxWaitTicks + 1) :
    splitWait ticks = [.wait (BitVec.ofNat 32 (ticks - 1))] := by
  unfold splitWait
  rw [if_neg (by omega), Nat.div_eq_of_lt (by omega), Nat.mod_eq_of_lt (by omega)]
  rfl

theorem narrow?_eq_some {x : BitVec 64} (h : x.toNat < 2 ^ 32) :
    narrow? x = some (BitVec.ofNat 32 x.toNat) := by
  have hwidth : x.setWidth 32 = BitVec.ofNat 32 x.toNat := by
    apply BitVec.eq_of_toNat_eq
    rw [BitVec.toNat_setWidth, BitVec.toNat_ofNat]
  unfold narrow?
  rw [hwidth, BitVec.toNat_ofNat, Nat.mod_eq_of_lt h, if_pos rfl]

/-- **The loop makes the chain**: what is made and the chain of what is left are together the
result, in every turn. -/
theorem waitLoop?_eq_some (chain : List Instruction) (remaining : BitVec 64) :
    waitLoop? chain remaining = some (chain ++ splitWait remaining.toNat) := by
  fun_induction waitLoop? chain remaining with
  | case1 chain remaining h ih =>
    have hlt := BitVec.lt_def.1 h
    rw [toNat_waitSpan] at hlt
    rw [ih, toNat_sub_waitSpan h, splitWait_of_lt hlt, List.append_assoc, List.singleton_append]
  | case2 chain remaining h hpos =>
    have hle := BitVec.not_lt.1 h
    rw [BitVec.le_def, toNat_waitSpan] at hle
    have hpos := BitVec.lt_def.1 hpos
    have hless : (remaining - 1#64).toNat = remaining.toNat - 1 :=
      BitVec.toNat_sub_of_le (BitVec.le_def.2 hpos)
    have hmax : maxWaitTicks < 2 ^ 32 := by decide
    rw [narrow?_eq_some (by omega), hless, splitWait_of_le hpos hle]
    rfl
  | case3 chain remaining h hpos =>
    have hzero : remaining.toNat = 0 := Nat.eq_zero_of_not_pos fun h0 => hpos (BitVec.lt_def.2 h0)
    rw [hzero, show splitWait 0 = [] from rfl, List.append_nil]

/-! ## The shortest chain -/

/-- A chain of waits, none of them longer than the longest, that takes `ticks` clock ticks. -/
structure Fills (ticks : Nat) (chain : List Instruction) : Prop where
  waits : ∀ i ∈ chain, ∃ n : Word, i = .wait n ∧ n.toNat ≤ maxWaitTicks
  total : Player.ticks chain = ticks

theorem Fills.ticks_le {ticks : Nat} {chain : List Instruction} (h : Fills ticks chain) :
    ticks ≤ chain.length * (maxWaitTicks + 1) := by
  obtain ⟨hwaits, rfl⟩ := h
  induction chain with
  | nil => exact Nat.zero_le _
  | cons i chain ih =>
    obtain ⟨⟨n, rfl, hn⟩, hrest⟩ := List.forall_mem_cons.1 hwaits
    have ih := ih hrest
    rw [Player.ticks, List.length_cons, Nat.succ_mul, Instruction.elapsed]
    omega

theorem maxWaitTicks_add_one : maxWaitTicks + 1 = 2 ^ 24 := by decide

theorem length_splitWait_eq_ceil (ticks : Nat) : (splitWait ticks).length = ticks ⌈/⌉ 2 ^ 24 := by
  have hpred : ticks + 2 ^ 24 - 1 = ticks + maxWaitTicks := by
    have := maxWaitTicks_add_one
    omega
  rw [length_splitWait, Nat.ceilDiv_eq_add_pred_div, hpred, maxWaitTicks_add_one]

theorem eq_full_of_mem_dropLast {ticks : Nat} {i : Instruction}
    (h : i ∈ (splitWait ticks).dropLast) : i = .wait (BitVec.ofNat 32 maxWaitTicks) := by
  unfold splitWait at h
  split at h
  · simp at h
  · rw [List.dropLast_concat] at h
    exact List.eq_of_mem_replicate h

theorem fills_splitWait (ticks : Nat) : Fills ticks (splitWait ticks) := by
  refine ⟨fun i hi => ?_, ticks_splitWait ticks⟩
  have hword : ∀ n ≤ maxWaitTicks, (BitVec.ofNat 32 n).toNat ≤ maxWaitTicks := fun n hn => by
    rw [BitVec.toNat_ofNat]
    exact Nat.le_trans (Nat.mod_le _ _) hn
  unfold splitWait at hi
  split at hi
  · simp at hi
  · rcases List.mem_append.1 hi with hi | hi
    · exact ⟨_, List.eq_of_mem_replicate hi, hword _ (Nat.le_refl _)⟩
    · exact ⟨_, List.mem_singleton.1 hi,
        hword _ (Nat.le_of_lt_succ (Nat.mod_lt _ (Nat.succ_pos _)))⟩

/-- The chain that fills a number of ticks with the fewest waits: full ones and, at its end, one for
what is left. -/
structure ShortestChain (ticks : Nat) (chain : List Instruction) : Prop where
  fills : Fills ticks chain
  count : chain.length = ticks ⌈/⌉ 2 ^ 24
  full : ∀ i ∈ chain.dropLast, i = .wait (BitVec.ofNat 32 (2 ^ 24 - 1))
  shortest : ∀ other, Fills ticks other → chain.length ≤ other.length

theorem shortestChain_splitWait (ticks : Nat) : ShortestChain ticks (splitWait ticks) where
  fills := fills_splitWait ticks
  count := length_splitWait_eq_ceil ticks
  full _ := eq_full_of_mem_dropLast
  shortest other h := by
    have hle := h.ticks_le
    rw [maxWaitTicks_add_one, Nat.mul_comm] at hle
    rw [length_splitWait_eq_ceil]
    exact (ceilDiv_le_iff_le_mul (by decide)).2 hle

/-- **The loop ends with the shortest chain of waits**, for every 64-bit number of ticks, and the
cut to half a word loses nothing. -/
theorem waitLoop?_shortest (ticks : BitVec 64) :
    waitLoop? [] ticks = some (splitWait ticks.toNat) ∧
      ShortestChain ticks.toNat (splitWait ticks.toNat) :=
  ⟨waitLoop?_eq_some [] ticks, shortestChain_splitWait ticks.toNat⟩

/-- A full wait and no more is one wait, and one tick more is another. -/
example : splitWait (2 ^ 24) = [.wait 0xFFFFFF#32] ∧
    splitWait (2 ^ 24 + 1) = [.wait 0xFFFFFF#32, .wait 0#32] := by decide

end PulseSequencer
