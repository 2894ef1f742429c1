import PulseSequencer.Proofs.Channel.ToggleSet

/-!
The levels of a channel by number and by time.

`states` lists the level after each switch by the number of the switch alone, `state` finds the
level at a time by a search.  With the default level before them the listed levels are all there
are, and the search says which of them holds (`getElem?_levels`).  It stops at a switch with the
switches before it, just after a switch with one more, and up to the first switch with none; for the
first two the switches have to ascend (`Ordered.switchesBefore_at`, `Ordered.switchesBefore_after`),
which they do however a channel is built.  So both give the same levels, also at the very times of
the switches: `states_agree`.
-/

namespace PulseSequencer

theorem even_eq_not_odd (n : Nat) : (n % 2 == 0) = !(n % 2 == 1) := by
  rcases Nat.mod_two_eq_zero_or_one n with h | h <;> simp [h]

namespace Channel

/-- The channels that can be built: from one at rest by switches at any numbers and changes of the
default level, in any order. -/
inductive Built : Channel → Prop
  | resting (level : Bool) : Built (resting level)
  | addSwitch {c t} : Built c → t.isNaN = false → Built (c.addSwitch t)
  | withDefault {c} (level : Bool) : Built c → Built (c.withDefault level)

theorem Built.ordered {c : Channel} (h : c.Built) : Ordered c.switches := by
  induction h with
  | resting level => exact ordered_resting level
  | addSwitch _ ht ih => exact ih.toggle ht
  | withDefault _ _ ih => exact ih

/-! ## Levels by number -/

/-- All levels in order: the default, then the level after each switch. -/
def levels (c : Channel) : List Bool := c.default :: c.states

theorem getElem?_states {c : Channel} {i : Nat} (h : i < c.switches.length) :
    c.states[i]? = some (c.default ^^ i % 2 == 0) := by
  simp [states, h]

/-- **The level at a time** is the one with the number of the switches before it. -/
theorem getElem?_levels (c : Channel) (q : Binary64) :
    c.levels[c.switchesBefore q]? = some (c.state q) := by
  have hle : c.switchesBefore q ≤ c.switches.length := (List.takeWhile_sublist _).length_le
  unfold levels state
  cases hn : c.switchesBefore q with
  | zero => simp
  | succ n =>
    rw [List.getElem?_cons_succ, getElem?_states (by omega), odd_add, even_eq_not_odd]
    simp

/-! ## The number of switches before a time -/

theorem switchesBefore_eq_of_take {c : Channel} {q : Binary64} {n : Nat}
    (hn : n ≤ c.switches.length) (hbefore : ∀ s ∈ c.switches.take n, s < q)
    (hnext : ∀ s, c.switches[n]? = some s → ¬ s < q) : c.switchesBefore q = n := by
  have hsplit := (List.take_append_drop n c.switches).symm
  rw [← List.head?_drop] at hnext
  rw [switchesBefore_of_split hsplit hbefore hnext, List.length_take_of_le hn]

section
variable {c : Channel} (h : Ordered c.switches) {i : Nat} {s : Binary64}
  (hs : c.switches[i]? = some s)
include h hs

theorem Ordered.lt_of_mem_take {u : Binary64} (hu : u ∈ c.switches.take i) : u < s := by
  obtain ⟨hi, rfl⟩ := List.getElem?_eq_some_iff.1 hs
  obtain ⟨j, hj, rfl⟩ := List.mem_take_iff_getElem.1 hu
  exact List.pairwise_iff_getElem.1 h.ascending j i (by omega) hi (by omega)

theorem Ordered.switchesBefore_at : c.switchesBefore s = i := by
  obtain ⟨hi, -⟩ := List.getElem?_eq_some_iff.1 hs
  refine switchesBefore_eq_of_take (Nat.le_of_lt hi) (fun u => h.lt_of_mem_take hs) fun u hu => ?_
  rw [hs] at hu
  cases hu
  exact Binary64.lt_irrefl s

theorem Ordered.switchesBefore_after {q : Binary64} (hq : s < q)
    (hnext : ∀ t, c.switches[i + 1]? = some t → q ≤ t) : c.switchesBefore q = i + 1 := by
  obtain ⟨hi, -⟩ := List.getElem?_eq_some_iff.1 hs
  refine switchesBefore_eq_of_take hi (fun u hu => ?_) fun t ht htq => ?_
  · rw [List.take_add_one, hs] at hu
    rcases List.mem_append.1 hu with hu | hu
    · exact Binary64.lt_of_le_of_lt (Binary64.le_of_lt (h.lt_of_mem_take hs hu)) hq
    · rwa [List.mem_singleton.1 hu]
  · exact Binary64.not_le_of_lt htq (hnext t ht)

end

/-! ## Both agree -/

/-- The levels listed by number are those at the times. -/
structure StatesAgree (c : Channel) : Prop where
  /-- one for each switch, the inverse of the level at the switch -/
  entries : c.states = c.switches.map fun s => !c.state s
  /-- it lasts up to the next switch and at it, or for ever -/
  after : ∀ i s q, c.switches[i]? = some s → s < q →
    (∀ t, c.switches[i + 1]? = some t → q ≤ t) → c.states[i]? = some (c.state q)
  before : ∀ q, (∀ s, c.firstSwitch? = some s → q ≤ s) → c.state q = c.default
  /-- the other default inverts all of them -/
  inverted : (∀ q, (c.withDefault !c.default).state q = !c.state q) ∧
    (c.withDefault !c.default).states = c.states.map (! ·)

theorem Ordered.states_eq_map {c : Channel} (h : Ordered c.switches) :
    c.states = c.switches.map fun s => !c.state s := by
  apply List.ext_getElem?
  intro i
  rw [List.getElem?_map]
  cases hs : c.switches[i]? with
  | none =>
    have hlen : c.states.length = c.switches.length := by simp [states]
    rw [List.getElem?_eq_none_iff] at hs
    rw [List.getElem?_eq_none (by omega), Option.map_none]
  | some s =>
    obtain ⟨hi, -⟩ := List.getElem?_eq_some_iff.1 hs
    rw [getElem?_states hi, Option.map_some, state, h.switchesBefore_at hs, even_eq_not_odd,
      Bool.xor_not]

theorem Ordered.getElem?_states_after {c : Channel} (h : Ordered c.switches) {i : Nat}
    {s q : Binary64} (hs : c.switches[i]? = some s) (hq : s < q)
    (hnext : ∀ t, c.switches[i + 1]? = some t → q ≤ t) : c.states[i]? = some (c.state q) := by
  rw [← getElem?_levels, h.switchesBefore_after hs hq hnext, levels, List.getElem?_cons_succ]

theorem state_of_le_first {c : Channel} {q : Binary64}
    (hq : ∀ s, c.firstSwitch? = some s → q ≤ s) : c.state q = c.default := by
  have hnone : c.switchesBefore q = 0 := by
    refine switchesBefore_eq_of_take (Nat.zero_le _) (by simp) fun s hs hsq => ?_
    exact Binary64.not_le_of_lt hsq (hq s (by rwa [firstSwitch?, List.head?_eq_getElem?]))
  have hlevel := c.getElem?_levels q
  rw [hnone] at hlevel
  exact (Option.some.inj hlevel).symm

theorem state_withDefault_not (c : Channel) (q : Binary64) :
    (c.withDefault !c.default).state q = !c.state q := Bool.not_xor _ _

theorem states_withDefault_not (c : Channel) :
    (c.withDefault !c.default).states = c.states.map (! ·) := by
  simp [states, withDefault]

/-- **The levels by number and by time agree** on every channel that can be built. -/
theorem states_agree {c : Channel} (h : c.Built) : c.StatesAgree where
  entries := h.ordered.states_eq_map
  after _ _ _ := h.ordered.getElem?_states_after
  before _ := state_of_le_first
  inverted := ⟨c.state_withDefault_not, c.states_withDefault_not⟩

/-- The default changes between the switches, the zeros cancel, and the first and the last switch
are at the infinities. -/
theorem states_agree_edges :
    let c := ((((((((resting false).addSwitch (.ofNat 1)).addSwitch Binary64.zero).addSwitch
      (.infinite false)).withDefault true).addSwitch (.ofRatio true 0 1)).addSwitch
      (.infinite true)).addSwitch (.ofNat 2))
    c.Built ∧ c.switches = [.infinite true, .ofNat 1, .ofNat 2, .infinite false] ∧
      c.states = [false, true, false, true] ∧
      c.switches.map c.state = [true, false, true, false] ∧ c.StatesAgree := by
  intro c
  have number (negative : Bool) (n : Nat) : (Binary64.ofRatio negative n 1).isNaN = false :=
    Binary64.ofUnits_isNaN _ _ _
  have hfirst := Built.addSwitch (.addSwitch (.addSwitch (.resting false) (number false 1))
    (number false 0)) (t := .infinite false) rfl
  have hc : c.Built := .addSwitch (.addSwitch (.addSwitch (.withDefault true hfirst)
    (number true 0)) rfl) (number false 2)
  exact ⟨hc, by decide +kernel, by decide +kernel, by decide +kernel, states_agree hc⟩

end Channel
end PulseSequencer
