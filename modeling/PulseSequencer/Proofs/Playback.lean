import PulseSequencer.Program.Basic

/-!
How the sequencer plays a program.

A player stands before an instruction and drives the outputs it has latched.  One step executes an
instruction: the trigger wait and a change of outputs latch new ones, a wait holds those it finds
for its clock ticks, a jump goes on at its target.  What counts is the list of outputs held, one
for each clock tick.

A lap is a run from one instruction until the player is back at the first one; the loops of a
program are the laps it makes one after another from power-on.  `loop_of_straight` says what the
loops of a program are that jumps only at its end, and only back to its start: they are all the
same, the outputs held by its instructions read from top to bottom.
-/

namespace PulseSequencer

/-- The index of the instruction to execute and the outputs driven. -/
structure Player where
  index : Nat
  outputs : Word
  deriving DecidableEq

namespace Player

/-- The player after an instruction. -/
def after (m : Player) : Instruction → Player
  | .triggerWait outputs => ⟨m.index + 1, outputs⟩
  | .wait _ => ⟨m.index + 1, m.outputs⟩
  | .setOutputs outputs => ⟨m.index + 1, outputs⟩
  | .jump target => ⟨target.toNat, m.outputs⟩

/-- One step: the outputs held tick by tick and the player after it; none behind the last
instruction. -/
def step (code : List Instruction) (m : Player) : Option (List Word × Player) :=
  code[m.index]?.map fun i => (List.replicate i.elapsed m.outputs, m.after i)

/-- A run from `m` until the player next stands before the first instruction. -/
inductive Lap (code : List Instruction) : Player → List Word → Player → Prop
  | last {m held m'} : step code m = some (held, m') → m'.index = 0 → Lap code m held m'
  | more {m held m' held' m''} : step code m = some (held, m') → m'.index ≠ 0 →
      Lap code m' held' m'' → Lap code m (held ++ held') m''

/-- The player `m` begins loop `n`, counted from zero, after a start with any outputs latched. -/
inductive Begins (code : List Instruction) : Nat → Player → Prop
  | powerOn (outputs : Word) : Begins code 0 ⟨0, outputs⟩
  | again {n m held m'} : Begins code n m → Lap code m held m' → Begins code (n + 1) m'

/-- The outputs held in loop `n`, tick by tick. -/
def Loop (code : List Instruction) (n : Nat) (held : List Word) : Prop :=
  ∃ m m', Begins code n m ∧ Lap code m held m'

/-- The players that come up in a run from power-on. -/
inductive Visits (code : List Instruction) : Player → Prop
  | powerOn (outputs : Word) : Visits code ⟨0, outputs⟩
  | step {m held m'} : Visits code m → step code m = some (held, m') → Visits code m'

theorem Lap.det {code : List Instruction} {m m₁ m₂ : Player} {held₁ held₂ : List Word}
    (h₁ : Lap code m held₁ m₁) (h₂ : Lap code m held₂ m₂) : held₁ = held₂ ∧ m₁ = m₂ := by
  induction h₁ generalizing held₂ m₂ with
  | last hs h0 =>
    cases h₂ with
    | last hs' _ => rw [hs] at hs'; cases hs'; exact ⟨rfl, rfl⟩
    | more hs' hn _ => rw [hs] at hs'; cases hs'; exact absurd h0 hn
  | more hs hn _ ih =>
    cases h₂ with
    | last hs' h0 => rw [hs] at hs'; cases hs'; exact absurd h0 hn
    | more hs' _ hl =>
      rw [hs] at hs'
      cases hs'
      obtain ⟨rfl, rfl⟩ := ih hl
      exact ⟨rfl, rfl⟩

theorem Lap.index_eq_zero {code : List Instruction} {m m' : Player} {held : List Word}
    (h : Lap code m held m') : m'.index = 0 := by
  induction h with
  | last _ h0 => exact h0
  | more _ _ _ ih => exact ih

theorem Begins.index_eq_zero {code : List Instruction} {n : Nat} {m : Player}
    (h : Begins code n m) : m.index = 0 := by
  cases h with
  | powerOn w => rfl
  | again _ hlap => exact hlap.index_eq_zero

/-! ## Instructions read from top to bottom -/

/-- The outputs latched after an instruction. -/
def latch (outputs : Word) : Instruction → Word
  | .triggerWait new => new
  | .setOutputs new => new
  | .wait _ | .jump _ => outputs

/-- The outputs latched after a list of instructions. -/
def latched (outputs : Word) (code : List Instruction) : Word := code.foldl latch outputs

/-- The outputs held by a list of instructions, tick by tick. -/
def held (outputs : Word) : List Instruction → List Word
  | [] => []
  | i :: rest => List.replicate i.elapsed outputs ++ held (latch outputs i) rest

@[simp] theorem latched_nil (w : Word) : latched w [] = w := rfl

@[simp] theorem latched_cons (w : Word) (i : Instruction) (code : List Instruction) :
    latched w (i :: code) = latched (latch w i) code := rfl

theorem latched_append (w : Word) (code code' : List Instruction) :
    latched w (code ++ code') = latched (latched w code) code' := List.foldl_append

theorem held_append (w : Word) (code code' : List Instruction) :
    held w (code ++ code') = held w code ++ held (latched w code) code' := by
  induction code generalizing w with
  | nil => rfl
  | cons i code ih => simp [held, ih]

/-- The clock ticks that a list of instructions takes. -/
def ticks : List Instruction → Nat
  | [] => 0
  | i :: rest => i.elapsed + ticks rest

theorem ticks_append (code code' : List Instruction) :
    ticks (code ++ code') = ticks code + ticks code' := by
  induction code with
  | nil => simp [ticks]
  | cons i code ih =>
    simp only [List.cons_append, ticks, ih]
    omega

theorem held_length (w : Word) (code : List Instruction) : (held w code).length = ticks code := by
  induction code generalizing w with
  | nil => rfl
  | cons i code ih => simp [held, ticks, ih]

/-- An instruction that goes on to the next one. -/
def GoesOn : Instruction → Prop
  | .jump _ => False
  | _ => True

theorem after_of_goesOn {i : Instruction} (h : GoesOn i) (m : Player) :
    m.after i = ⟨m.index + 1, latch m.outputs i⟩ := by
  cases i with
  | jump target => exact absurd h (by simp [GoesOn])
  | _ => rfl

theorem lap_of_straight {code pre rest : List Instruction} (hcode : code = pre ++ rest ++ [.jump 0])
    (hrest : ∀ i ∈ rest, GoesOn i) (w : Word) :
    Lap code ⟨pre.length, w⟩ (held w rest) ⟨0, latched w rest⟩ := by
  induction rest generalizing pre w with
  | nil =>
    have hat : code[pre.length]? = some (.jump 0) := by simp [hcode]
    refine .last ?_ rfl
    simp [step, hat, held, after, Instruction.elapsed]
  | cons i rest ih =>
    have hat : code[pre.length]? = some i := by simp [hcode]
    have hstep : step code ⟨pre.length, w⟩ =
        some (List.replicate i.elapsed w, ⟨pre.length + 1, latch w i⟩) := by
      simp [step, hat, after_of_goesOn (hrest i (by simp))]
    refine .more hstep (by simp) ?_
    have := @ih (pre ++ [i]) (by simp [hcode]) (fun j hj => hrest j (by simp [hj])) (latch w i)
    simpa using this

section
variable {code body : List Instruction} {idle : Word}
  (hcode : code = .triggerWait idle :: body ++ [.jump 0]) (hbody : ∀ i ∈ body, GoesOn i)
include hcode hbody

/-- Every lap from the first instruction is the same, whatever was latched before. -/
theorem lap_from_start (w : Word) : Lap code ⟨0, w⟩ (held idle body) ⟨0, latched idle body⟩ := by
  have h := @lap_of_straight code [] (.triggerWait idle :: body) hcode
    (fun i hi => by
      rcases List.mem_cons.1 hi with rfl | hi
      · trivial
      · exact hbody i hi) w
  simpa [held, latch, Instruction.elapsed] using h

theorem exists_begins (n : Nat) : ∃ w, Begins code n ⟨0, w⟩ := by
  induction n with
  | zero => exact ⟨0, .powerOn 0⟩
  | succ n ih =>
    obtain ⟨w, hw⟩ := ih
    exact ⟨_, .again hw (lap_from_start hcode hbody w)⟩

/-- **The loops of a program that jumps only from its end to its start.** -/
theorem loop_of_straight (n : Nat) (h : List Word) : Loop code n h ↔ h = held idle body := by
  constructor
  · rintro ⟨m, m', hm, hlap⟩
    have h0 := hm.index_eq_zero
    obtain ⟨i, w⟩ := m
    subst h0
    exact (hlap.det (lap_from_start hcode hbody w)).1
  · rintro rfl
    obtain ⟨w, hw⟩ := exists_begins hcode hbody n
    exact ⟨_, _, hw, lap_from_start hcode hbody w⟩

/-- Between two loops the player has latched what the instructions before it latch. -/
theorem visits_cases {m : Player} (h : Visits code m) :
    m.index = 0 ∨ (0 < m.index ∧ m.index ≤ body.length + 1 ∧
      m.outputs = latched idle (body.take (m.index - 1))) := by
  induction h with
  | powerOn w => exact .inl rfl
  | @step m held₀ m' _ hs ih =>
    unfold step at hs
    obtain ⟨i, hi, heq⟩ := Option.map_eq_some_iff.1 hs
    simp only [Prod.mk.injEq] at heq
    obtain ⟨-, rfl⟩ := heq
    rcases ih with h0 | ⟨hpos, hle, hout⟩
    · rw [h0, hcode] at hi
      simp only [List.cons_append, List.getElem?_cons_zero, Option.some.injEq] at hi
      subst hi
      right
      simp [after, h0]
    · obtain ⟨k, hk⟩ : ∃ k, m.index = k + 1 := ⟨m.index - 1, by omega⟩
      rw [hk, hcode] at hi
      simp only [List.cons_append, List.getElem?_cons_succ] at hi
      rcases Nat.lt_or_ge k body.length with hlt | hge
      · rw [List.getElem?_append_left hlt] at hi
        have hmem := List.mem_of_getElem? hi
        right
        rw [after_of_goesOn (hbody i hmem), hout, hk]
        refine ⟨by simp, by simp; omega, ?_⟩
        simp only [Nat.add_sub_cancel]
        obtain ⟨hlt', rfl⟩ := List.getElem?_eq_some_iff.1 hi
        rw [List.take_succ_eq_append_getElem hlt', latched_append]
        rfl
      · have hkl : k = body.length := by omega
        subst hkl
        simp only [List.getElem?_append_right (Nat.le_refl _), Nat.sub_self,
          List.getElem?_cons_zero, Option.some.injEq] at hi
        subst hi
        exact .inl rfl

end

end Player
end PulseSequencer
