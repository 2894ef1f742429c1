import PulseSequencer.Proofs.Channel

/-!
A channel as the set of the times that were hit an odd number of times.

The switches before a time come first among ordered ones, so counting up to the first that is not
before it counts them all (`Ordered.length_takeWhile`).  One more switch therefore inverts the level
after its time and no other level (`state_addSwitch`), and a run of switches inverts the level at a
time once for each of them before it (`state_foldl_addSwitch`), whether or not they cancel in
between.  A run that hits every place an even number of times leaves the channel as it was
(`view_foldl_of_even`), as one that is made twice does (`view_foldl_twice`).  For a channel that
starts at rest all of this is `toggleSet_of_run`.
-/

namespace PulseSequencer

namespace Channel

open Binary64 (position)

/-! ## Levels -/

/-- **The times before `q`** come first among ordered ones, so none is missed where a count of them
stops. -/
theorem Ordered.length_takeWhile {l : List Binary64} (h : Ordered l) (q : Binary64) :
    (l.takeWhile fun s => decide (s < q)).length = l.countP fun s => decide (s < q) := by
  rw [takeWhile_eq_filter (h.initial_lt q), List.countP_eq_length_filter]

theorem Ordered.state_eq {c : Channel} (h : Ordered c.switches) (q : Binary64) :
    c.state q = (c.default ^^ (c.switches.countP fun s => decide (s < q)) % 2 == 1) := by
  rw [state, switchesBefore, h.length_takeWhile]

theorem switchesBefore_of_split {c : Channel} {pre post : List Binary64} {q : Binary64}
    (hsplit : c.switches = pre ++ post) (hpre : ∀ u ∈ pre, u < q)
    (hnext : ∀ u, post.head? = some u → ¬ u < q) : c.switchesBefore q = pre.length := by
  have hstop : post.takeWhile (fun s => decide (s < q)) = [] := by
    cases post with
    | nil => rfl
    | cons u rest => exact List.takeWhile_cons_of_neg (by simpa using hnext u rfl)
  rw [switchesBefore, hsplit, List.takeWhile_append_of_pos (by simpa using hpre), hstop,
    List.append_nil]

theorem state_of_split {c : Channel} {pre post : List Binary64} {q : Binary64}
    (hsplit : c.switches = pre ++ post) (hpre : ∀ u ∈ pre, u < q) (hpost : ∀ u ∈ post, ¬ u < q) :
    c.state q = (c.default ^^ pre.length % 2 == 1) := by
  rw [state, switchesBefore_of_split hsplit hpre fun u hu => hpost u (List.mem_of_head? hu)]

section
variable {c : Channel} (h : Ordered c.switches)
include h

/-- **The level after a switch**, up to the next one, is the inverse of that at the switch. -/
theorem Ordered.state_after {pre post : List Binary64} {s q : Binary64}
    (hsplit : c.switches = pre ++ s :: post) (hs : s < q) (hpost : ∀ u ∈ post, ¬ u < q) :
    c.state q = !c.state s := by
  have hasc := h.ascending
  rw [hsplit] at hasc
  obtain ⟨-, hrest, hpre⟩ := List.pairwise_append.1 hasc
  have hbefore : ∀ u ∈ pre, u < s := fun u hu => hpre u hu s (by simp)
  have hat : c.state s = (c.default ^^ pre.length % 2 == 1) := by
    refine state_of_split hsplit hbefore fun u hu => ?_
    rcases List.mem_cons.1 hu with rfl | hu
    · exact Binary64.lt_irrefl u
    · exact Binary64.lt_asymm ((List.pairwise_cons.1 hrest).1 u hu)
  have hafter : c.state q = (c.default ^^ (pre.length + 1) % 2 == 1) := by
    have hsplit' : c.switches = (pre ++ [s]) ++ post := by simp [hsplit]
    rw [state_of_split hsplit' (fun u hu => ?_) hpost, List.length_append, List.length_singleton]
    rcases List.mem_append.1 hu with hu | hu
    · exact Binary64.lt_of_le_of_lt (Binary64.le_of_lt (hbefore u hu)) hs
    · rwa [List.mem_singleton.1 hu]
  rw [hat, hafter, odd_add, ← Bool.xor_assoc]
  simp

theorem Ordered.state_same {t q : Binary64} (ht : t < q)
    (hnone : ∀ s ∈ c.switches, s < q → s < t) : c.state q = c.state t := by
  rw [h.state_eq, h.state_eq]
  congr 3
  refine List.countP_congr fun s hs => ?_
  simp only [decide_eq_true_eq]
  exact ⟨hnone s hs, fun hst => Binary64.lt_of_le_of_lt (Binary64.le_of_lt hst) ht⟩

end

theorem state_of_empty {c : Channel} (h : c.switches = []) (q : Binary64) :
    c.state q = c.default := by
  simp [state, switchesBefore, h]

/-- **One more switch** inverts the level after its time. -/
theorem state_addSwitch {c : Channel} (h : Ordered c.switches) {t : Binary64}
    (ht : t.isNaN = false) (q : Binary64) :
    (c.addSwitch t).state q = (c.state q ^^ decide (t < q)) := by
  have hsame : ∀ u ∈ c.switches, u.position = t.position → decide (u < q) = decide (t < q) := by
    intro u hu hut
    simp only [Binary64.lt_iff, h.number u hu, ht, hut]
  have hcount := h.countP_toggle ht hsame
  have hlevel := (h.toggle ht).state_eq (c := c.addSwitch t) q
  rw [hlevel, h.state_eq, addSwitch, hcount, odd_add, Bool.xor_assoc]
  by_cases hlt : t < q
  · simp [hlt]
  · simp [hlt]

/-- **After a run of switches** the level at a time is inverted once for each of them before it. -/
theorem state_foldl_addSwitch {ts : List Binary64} (hts : ∀ t ∈ ts, t.isNaN = false) {c : Channel}
    (h : Ordered c.switches) (q : Binary64) :
    (ts.foldl addSwitch c).state q =
      (c.state q ^^ (ts.countP fun t => decide (t < q)) % 2 == 1) := by
  induction ts generalizing c with
  | nil => simp
  | cons t ts ih =>
    obtain ⟨ht, hts⟩ := List.forall_mem_cons.1 hts
    rw [List.foldl_cons, ih hts (c := c.addSwitch t) (h.toggle ht), state_addSwitch h ht,
      List.countP_cons, Nat.add_comm, odd_add, Bool.xor_assoc]
    by_cases hlt : t < q
    · simp [hlt]
    · simp [hlt]

/-! ## Members -/

theorem mem_of_mem_foldl_addSwitch {ts : List Binary64} {c : Channel} {u : Binary64}
    (hu : u ∈ (ts.foldl addSwitch c).switches) : u ∈ ts ∨ u ∈ c.switches := by
  induction ts generalizing c with
  | nil => exact .inr hu
  | cons t ts ih =>
    rcases ih hu with hmem | hmem
    · exact .inl (List.mem_cons_of_mem t hmem)
    · rcases mem_toggle hmem with rfl | hmem
      · exact .inl List.mem_cons_self
      · exact .inr hmem

theorem view_foldl_of_even {ts : List Binary64} (hts : ∀ t ∈ ts, t.isNaN = false)
    (heven : ∀ v, ts.countP (fun t => t.position == v) % 2 = 0) {c : Channel}
    (h : Ordered c.switches) : (ts.foldl addSwitch c).view = c.view := by
  have hpos := (ordered_foldl_addSwitch hts h).positions_eq h fun v => by
    rw [mem_foldl_addSwitch hts h, heven v]
    simp
  simp only [view, default_foldl_addSwitch, hpos]

theorem view_foldl_twice {ts : List Binary64} (hts : ∀ t ∈ ts, t.isNaN = false) {c : Channel}
    (h : Ordered c.switches) : (ts.foldl addSwitch (ts.foldl addSwitch c)).view = c.view := by
  have htwice : ∀ t ∈ ts ++ ts, t.isNaN = false := fun t ht =>
    (List.mem_append.1 ht).elim (hts t) (hts t)
  have heven : ∀ v, (ts ++ ts).countP (fun t => t.position == v) % 2 = 0 := by
    intro v
    rw [List.countP_append]
    omega
  rw [← List.foldl_append]
  exact view_foldl_of_even htwice heven h

/-! ## Channels that start at rest -/

/-- A channel at rest at `level` after switches at `ts`. -/
structure ToggleSet (level : Bool) (ts : List Binary64) (c : Channel) : Prop where
  default : c.default = level
  ascending : c.switches.Pairwise (· < ·)
  given : ∀ s ∈ c.switches, s ∈ ts
  /-- the values that were hit an odd number of times, and only they, are left -/
  odd : ∀ t, (∃ s ∈ c.switches, s.equal t = true) ↔ ts.countP (·.equal t) % 2 = 1
  anyOrder : ∀ ts', ts.Perm ts' → (ts'.foldl addSwitch (resting level)).equal c = true
  twice : ∀ t, t.isNaN = false → ((c.addSwitch t).addSwitch t).equal c = true
  levels : ∀ q, c.state q = (level ^^ (ts.countP fun t => decide (t < q)) % 2 == 1)

theorem ordered_resting (level : Bool) : Ordered (resting level).switches :=
  (WellFormed.resting level).ordered

theorem countP_equal {ts : List Binary64} (hts : ∀ t ∈ ts, t.isNaN = false) {u : Binary64}
    (hu : u.isNaN = false) :
    ts.countP (·.equal u) = ts.countP fun t => t.position == u.position := by
  refine List.countP_congr fun t ht => ?_
  rw [Binary64.equal_iff, hts t ht, hu]
  simp

theorem exists_equal_iff {ts : List Binary64} (hts : ∀ t ∈ ts, t.isNaN = false) (level : Bool)
    (u : Binary64) :
    (∃ s ∈ (ts.foldl addSwitch (resting level)).switches, s.equal u = true) ↔
      ts.countP (·.equal u) % 2 = 1 := by
  have hord := ordered_foldl_addSwitch hts (ordered_resting level)
  cases hu : u.isNaN with
  | true =>
    -- Nothing equals what is not a number.
    have hnone : ∀ t : Binary64, ¬ t.equal u = true := by
      intro t heq
      have := (Binary64.equal_iff.1 heq).2.1
      rw [hu] at this
      cases this
    simp [hnone]
  | false =>
    have hmem := mem_foldl_addSwitch hts (ordered_resting level) (v := u.position)
    have hodd : ts.countP (fun t => t.position == u.position) % 2 = 1 ↔
        ¬ ts.countP (fun t => t.position == u.position) % 2 = 0 := by omega
    rw [countP_equal hts hu, hodd]
    constructor
    · rintro ⟨s, hs, heq⟩
      have hpos := hmem.1 ((Binary64.equal_iff.1 heq).2.2 ▸ List.mem_map_of_mem hs)
      simpa [resting] using hpos
    · intro hne
      obtain ⟨s, hs, hpos⟩ := List.mem_map.1 (hmem.2 (by simpa [resting] using hne))
      exact ⟨s, hs, Binary64.equal_iff.2 ⟨hord.number s hs, hu, hpos⟩⟩

/-- **A channel is a toggle set.** After switches at any times in any order, a time is left if it
was hit an odd number of times, and the level at a time is inverted once for each switch before
it. -/
theorem toggleSet_of_run (level : Bool) {ts : List Binary64} (hts : ∀ t ∈ ts, t.isNaN = false) :
    ToggleSet level ts (ts.foldl addSwitch (resting level)) := by
  have hrest := ordered_resting level
  have hord := ordered_foldl_addSwitch hts hrest
  refine
    { default := default_foldl_addSwitch (resting level) ts
      ascending := hord.ascending
      given := fun s hs => (mem_of_mem_foldl_addSwitch hs).resolve_right (by simp [resting])
      odd := exists_equal_iff hts level
      anyOrder := fun ts' hperm => ?_
      twice := fun t ht => ?_
      levels := fun q => ?_ }
  · have hts' : ∀ t ∈ ts', t.isNaN = false := fun t ht => hts t (hperm.mem_iff.2 ht)
    rw [equal_iff (ordered_foldl_addSwitch hts' hrest).number hord.number]
    exact (view_foldl_of_perm hperm hts hrest).symm
  · have hagain := (hord.toggle ht).toggle ht
    refine (equal_iff hagain.number hord.number).2 ?_
    exact view_foldl_twice (List.forall_mem_singleton.2 ht) hord
  · rw [state_foldl_addSwitch hts hrest, state_of_empty rfl]
    rfl

/-- Both zeros together are hit three times and both infinities once; of the zeros the one that was
added last is left. -/
theorem toggleSet_of_run_zeros :
    let minus := Binary64.ofRatio true 0 1
    let ts := [.infinite false, Binary64.zero, .ofNat 1, minus, .ofNat 1, .infinite true, minus]
    let c := ts.foldl addSwitch (resting true)
    (∀ t ∈ ts, t.isNaN = false) ∧ c.switches = [.infinite true, minus, .infinite false] ∧
      c.state Binary64.zero = false ∧ c.state (.ofNat 1) = true ∧ ToggleSet true ts c := by
  intro minus ts c
  have hts : ∀ t ∈ ts, t.isNaN = false := by decide +kernel
  exact ⟨hts, by decide +kernel, by decide +kernel, by decide +kernel, toggleSet_of_run true hts⟩

end Channel
end PulseSequencer
