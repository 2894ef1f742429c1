import PulseSequencer.Channel.Curve
import PulseSequencer.Proofs.Channel.ToggleSet

/-!
A curve shows what its channel does.

The switches of a curve are cut out of a channel by two searches, one for the first switch that is
not before the interval and one for the first that is after it.  Among ordered switches both stop
where they should (`slice?_switches`), so that a curve is drawn from the switches in the interval
and the ends that are no switches: `drawn`.  Its samples at times of any kind are those of the
switches of that kind (`filter_edges`), from which it follows what is sampled, and that the level
at a time is that of the last sample before it (`levels_drawn`).  For a channel after any run of
switches all of this is `curves_faithful`.
-/

namespace PulseSequencer

/-- The items of a list from one index up to another, if the list has them. -/
def slice? {α : Type} (l : List α) (lo hi : Nat) : Option (List α) :=
  if lo ≤ hi ∧ hi ≤ l.length then some ((l.take hi).drop lo) else none

/-- Two samples have the same time, by value, and the same level. -/
def sampleEqual (v w : Binary64 × Bool) : Bool := v.1.equal w.1 && v.2 == w.2

/-- Two curves have the same samples, by value. -/
def Curve.equal (a b : Curve) : Bool :=
  a.samples.length == b.samples.length &&
    (a.samples.zip b.samples).all fun (v, w) => sampleEqual v w

namespace Channel

open Binary64 (position)

/-! ## Switches in an interval -/

/-- A switch lies at the position of `t`. -/
def hasSwitchAt (c : Channel) (t : Binary64) : Bool := c.switches.any (·.equal t)

/-- A time lies in the interval from `t0` to `t1`. -/
def within (t0 t1 s : Binary64) : Bool := decide (t0 ≤ s) && decide (s ≤ t1)

theorem within_iff {t0 t1 s : Binary64} : within t0 t1 s = true ↔ t0 ≤ s ∧ s ≤ t1 := by
  simp [within]

theorem hasSwitchAt_iff {c : Channel} {t : Binary64} :
    c.hasSwitchAt t = true ↔ ∃ s ∈ c.switches, s.equal t = true := by
  simp [hasSwitchAt]

section
variable {c : Channel} (h : Ordered c.switches) {t0 t1 : Binary64} (hle : t0 ≤ t1)
include h hle

theorem switchesBefore_eq : c.switchesBefore t0 =
    (c.switches.filter fun s => decide (s ≤ t1)).countP fun s => decide (s < t0) := by
  rw [switchesBefore, h.length_takeWhile, List.countP_filter]
  refine List.countP_congr fun s _ => ?_
  simp only [Bool.and_eq_true, decide_eq_true_eq]
  exact ⟨fun hs => ⟨hs, Binary64.le_trans (Binary64.le_of_lt hs) hle⟩, And.left⟩

/-- **The switches between the two searches are those in the interval.** -/
theorem switchesWithin_eq : c.switchesWithin t0 t1 = c.switches.filter (within t0 t1) := by
  have ht0 := (Binary64.le_iff.1 hle).1
  have hupTo : Ordered (c.switches.filter fun s => decide (s ≤ t1)) := h.filter _
  rw [switchesWithin, takeWhile_eq_filter (h.initial_le t1), switchesBefore_eq h hle,
    drop_countP (hupTo.initial_lt t0), List.filter_filter]
  refine List.filter_congr fun s hs => ?_
  rw [within, ← decide_not]
  simp only [Binary64.not_lt (h.number s hs) ht0]

/-- **The searches stay in bounds**: the first one stops no later than the second, and that one not
behind the last switch. -/
theorem slice?_switches :
    slice? c.switches (c.switchesBefore t0) (c.switches.takeWhile fun s => decide (s ≤ t1)).length =
      some (c.switchesWithin t0 t1) := by
  have hlo : c.switchesBefore t0 ≤ (c.switches.takeWhile fun s => decide (s ≤ t1)).length := by
    rw [switchesBefore_eq h hle, takeWhile_eq_filter (h.initial_le t1)]
    exact List.countP_le_length
  have hprefix := List.takeWhile_prefix (l := c.switches) fun s => decide (s ≤ t1)
  rw [slice?, if_pos ⟨hlo, hprefix.length_le⟩, ← List.prefix_iff_eq_take.1 hprefix]
  rfl

end

/-! ## What is drawn -/

/-- The two samples of a switch. -/
def edge (c : Channel) (s : Binary64) : List (Binary64 × Bool) := [(s, c.state s), (s, !c.state s)]

/-- The sample of an end of the interval, unless a switch is there. -/
def endSample (c : Channel) (t : Binary64) : List (Binary64 × Bool) :=
  if c.hasSwitchAt t then [] else [(t, c.state t)]

/-- The samples of an interval, told by the switches in it. -/
def drawn (c : Channel) (t0 t1 : Binary64) : List (Binary64 × Bool) :=
  c.endSample t0 ++ (c.switches.filter (within t0 t1)).flatMap c.edge ++ c.endSample t1

theorem exists_within {c : Channel} {t0 t1 t : Binary64} (h0 : t0 ≤ t) (h1 : t ≤ t1)
    (hat : c.hasSwitchAt t = true) :
    ∃ s ∈ c.switches.filter (within t0 t1), s ≤ t ∧ t ≤ s := by
  obtain ⟨s, hs, heq⟩ := hasSwitchAt_iff.1 hat
  obtain ⟨hst, hts⟩ := Binary64.equal_iff_le.1 heq
  refine ⟨s, List.mem_filter.2 ⟨hs, within_iff.2 ⟨?_, ?_⟩⟩, hst, hts⟩
  · exact Binary64.le_trans h0 hts
  · exact Binary64.le_trans hst h1

section
variable {c : Channel} (h : Ordered c.switches) {t0 t1 : Binary64} (hle : t0 ≤ t1)
include h hle

theorem hasSwitchAt_first :
    c.hasSwitchAt t0 = true ↔
      ∃ s, (c.switches.filter (within t0 t1)).head? = some s ∧ s.equal t0 = true := by
  constructor
  · intro hat
    obtain ⟨s, hs, hst, -⟩ := exists_within (Binary64.le_self (Binary64.le_iff.1 hle).1) hle hat
    have hhead := List.head?_eq_some_head (List.ne_nil_of_mem hs)
    refine ⟨_, hhead, Binary64.equal_iff_le.2 ⟨?_, ?_⟩⟩
    · exact Binary64.le_trans ((h.filter _).head_le hhead hs) hst
    · exact (within_iff.1 (List.mem_filter.1 (List.mem_of_head? hhead)).2).1
  · rintro ⟨s, hs, heq⟩
    exact hasSwitchAt_iff.2 ⟨s, (List.mem_filter.1 (List.mem_of_head? hs)).1, heq⟩

theorem hasSwitchAt_last :
    c.hasSwitchAt t1 = true ↔
      ∃ s, (c.switches.filter (within t0 t1)).getLast? = some s ∧ s.equal t1 = true := by
  constructor
  · intro hat
    obtain ⟨s, hs, -, hts⟩ := exists_within hle (Binary64.le_self (Binary64.le_iff.1 hle).2.1) hat
    have hlast := List.getLast?_eq_some_getLast (List.ne_nil_of_mem hs)
    refine ⟨_, hlast, Binary64.equal_iff_le.2 ⟨?_, ?_⟩⟩
    · exact (within_iff.1 (List.mem_filter.1 (List.mem_of_getLast? hlast)).2).2
    · exact Binary64.le_trans hts ((h.filter _).le_getLast hlast hs)
  · rintro ⟨s, hs, heq⟩
    exact hasSwitchAt_iff.2 ⟨s, (List.mem_filter.1 (List.mem_of_getLast? hs)).1, heq⟩

/-- **A curve is drawn from the switches in its interval** and the ends that are no switches. -/
theorem samples_eq_drawn : c.samples t0 t1 (c.switchesWithin t0 t1) = c.drawn t0 t1 := by
  have hfirst : ((c.switches.filter (within t0 t1)).head?.any fun s => s.equal t0) =
      c.hasSwitchAt t0 := by
    rw [Bool.eq_iff_iff, Option.any_eq_true, hasSwitchAt_first h hle]
  have hlast : ((c.switches.filter (within t0 t1)).getLast?.any fun s => s.equal t1) =
      c.hasSwitchAt t1 := by
    rw [Bool.eq_iff_iff, Option.any_eq_true, hasSwitchAt_last h hle]
  simp only [samples, drawn, endSample, switchesWithin_eq h hle, hfirst, hlast]
  rfl

end

/-! ## Samples of some kind -/

theorem filter_edges (c : Channel) (p : Binary64 → Bool) (l : List Binary64) :
    (l.flatMap c.edge).filter (fun v => p v.1) = (l.filter p).flatMap c.edge := by
  induction l with
  | nil => rfl
  | cons s rest ih =>
    rw [List.flatMap_cons, List.filter_append, ih]
    by_cases hs : p s = true
    · rw [List.filter_cons_of_pos hs, List.flatMap_cons]
      simp [edge, hs]
    · rw [List.filter_cons_of_neg hs]
      simp [edge, hs]

theorem mem_endSample {c : Channel} {t : Binary64} {v : Binary64 × Bool} (hv : v ∈ c.endSample t) :
    v = (t, c.state t) ∧ c.hasSwitchAt t = false := by
  unfold endSample at hv
  split at hv
  · simp at hv
  · rename_i hat
    exact ⟨List.mem_singleton.1 hv, by simpa using hat⟩

theorem mem_edges {c : Channel} {t0 t1 : Binary64} {v : Binary64 × Bool}
    (hv : v ∈ (c.switches.filter (within t0 t1)).flatMap c.edge) :
    v.1 ∈ c.switches ∧ t0 ≤ v.1 ∧ v.1 ≤ t1 := by
  obtain ⟨s, hs, hv⟩ := List.mem_flatMap.1 hv
  obtain ⟨hmem, hin⟩ := List.mem_filter.1 hs
  have htime : v.1 = s := by
    simp only [edge, List.mem_cons, List.not_mem_nil, or_false] at hv
    rcases hv with rfl | rfl <;> rfl
  exact htime ▸ ⟨hmem, within_iff.1 hin⟩

theorem others_drawn (c : Channel) (t0 t1 : Binary64) :
    (c.drawn t0 t1).filter (fun v => !c.hasSwitchAt v.1) =
      ([t0, t1].filter fun t => !c.hasSwitchAt t).map fun t => (t, c.state t) := by
  have hend : ∀ t, (c.endSample t).filter (fun v => !c.hasSwitchAt v.1) =
      ([t].filter fun t => !c.hasSwitchAt t).map fun t => (t, c.state t) := by
    intro t
    cases hat : c.hasSwitchAt t <;> simp [endSample, hat]
  have hnone : (c.switches.filter (within t0 t1)).filter (fun t => !c.hasSwitchAt t) = [] := by
    refine List.filter_eq_nil_iff.2 fun s hs => ?_
    obtain ⟨hmem, hin⟩ := List.mem_filter.1 hs
    have hself := Binary64.le_self (Binary64.le_iff.1 (within_iff.1 hin).1).2.1
    simp [hasSwitchAt_iff.2 ⟨s, hmem, Binary64.equal_iff_le.2 ⟨hself, hself⟩⟩]
  rw [drawn, List.filter_append, List.filter_append, filter_edges c (fun t => !c.hasSwitchAt t),
    hnone, hend, hend, List.flatMap_nil, List.append_nil, ← List.map_append, ← List.filter_append]
  rfl

/-- **A switch in the interval is sampled twice.** -/
theorem edges_drawn {c : Channel} (h : Ordered c.switches) {t0 t1 s : Binary64}
    (hs : s ∈ c.switches) (h0 : t0 ≤ s) (h1 : s ≤ t1) :
    (c.drawn t0 t1).filter (·.1.equal s) = c.edge s := by
  have hend : ∀ t, (c.endSample t).filter (·.1.equal s) = [] := by
    intro t
    refine List.filter_eq_nil_iff.2 fun v hv heq => ?_
    obtain ⟨rfl, hat⟩ := mem_endSample hv
    obtain ⟨hts, hst⟩ := Binary64.equal_iff_le.1 heq
    rw [hasSwitchAt_iff.2 ⟨s, hs, Binary64.equal_iff_le.2 ⟨hst, hts⟩⟩] at hat
    cases hat
  have hmem : s ∈ c.switches.filter (within t0 t1) :=
    List.mem_filter.2 ⟨hs, within_iff.2 ⟨h0, h1⟩⟩
  rw [drawn, List.filter_append, List.filter_append, hend, hend,
    filter_edges c (fun t => t.equal s), (h.filter _).filter_equal hmem]
  simp

/-! ## Levels -/

theorem mem_before {c : Channel} {t0 t1 q u : Binary64} (h1 : q ≤ t1) (hu : u ∈ c.switches)
    (h0u : t0 ≤ u) (huq : u < q) :
    u ∈ (c.switches.filter (within t0 t1)).filter fun t => decide (t < q) := by
  have hu1 := Binary64.le_trans (Binary64.le_of_lt huq) h1
  exact List.mem_filter.2 ⟨List.mem_filter.2 ⟨hu, within_iff.2 ⟨h0u, hu1⟩⟩, by simpa using huq⟩

section
variable {c : Channel} (h : Ordered c.switches) {t0 t1 q : Binary64} (h1 : q ≤ t1)
include h h1

theorem state_of_none_before (h0 : t0 < q)
    (hnone : ((c.switches.filter (within t0 t1)).filter fun t => decide (t < q)) = []) :
    c.hasSwitchAt t0 = false ∧ c.state q = c.state t0 := by
  have hbefore : ∀ s ∈ c.switches, s < q → s < t0 := by
    intro s hs hsq
    refine Classical.byContradiction fun hst => ?_
    have hts := (Binary64.not_lt (h.number s hs) (Binary64.lt_iff.1 h0).1).1 hst
    have := mem_before h1 hs hts hsq
    rw [hnone] at this
    simp at this
  refine ⟨Bool.eq_false_iff.2 fun hat => ?_, h.state_same h0 hbefore⟩
  obtain ⟨s, hs, heq⟩ := hasSwitchAt_iff.1 hat
  obtain ⟨hst, hts⟩ := Binary64.equal_iff_le.1 heq
  exact Binary64.not_le_of_lt (hbefore s hs (Binary64.lt_of_le_of_lt hst h0)) hts

theorem state_of_last_before {s : Binary64}
    (hlast : ((c.switches.filter (within t0 t1)).filter fun t => decide (t < q)).getLast? =
      some s) :
    c.state q = !c.state s := by
  obtain ⟨hcut, hsq⟩ := List.mem_filter.1 (List.mem_of_getLast? hlast)
  obtain ⟨hs, hin⟩ := List.mem_filter.1 hcut
  obtain ⟨pre, post, hsplit⟩ := List.append_of_mem hs
  refine h.state_after hsplit (by simpa using hsq) fun u hu huq => ?_
  have hasc := h.ascending
  rw [hsplit] at hasc
  have hsu := (List.pairwise_cons.1 (List.pairwise_append.1 hasc).2.1).1 u hu
  have h0u := Binary64.le_trans (within_iff.1 hin).1 (Binary64.le_of_lt hsu)
  have humem : u ∈ c.switches := by simp [hsplit, hu]
  have hlater := mem_before h1 humem h0u huq
  exact Binary64.not_le_of_lt hsu (((h.filter _).filter _).le_getLast hlast hlater)

/-- **The level at a time is that of the last sample before it.** -/
theorem levels_drawn (h0 : t0 < q) :
    ((c.drawn t0 t1).filter fun v => decide (v.1 < q)).getLast?.map Prod.snd =
      some (c.state q) := by
  have hclosing : (c.endSample t1).filter (fun v => decide (v.1 < q)) = [] := by
    refine List.filter_eq_nil_iff.2 fun v hv hlt => ?_
    rw [(mem_endSample hv).1] at hlt
    exact Binary64.not_le_of_lt (by simpa using hlt) h1
  rw [drawn, List.filter_append, List.filter_append, hclosing,
    filter_edges c (fun t => decide (t < q)), List.append_nil]
  cases hlast : ((c.switches.filter (within t0 t1)).filter fun t => decide (t < q)).getLast? with
  | none =>
    rw [List.getLast?_eq_none_iff] at hlast
    obtain ⟨hat, hlevel⟩ := state_of_none_before h h1 h0 hlast
    rw [hlast, hlevel]
    simp [endSample, hat, h0]
  | some s =>
    obtain ⟨init, hinit⟩ := List.getLast?_eq_some_iff.1 hlast
    rw [hinit, state_of_last_before h h1 hlast]
    simp [edge]

end

/-- A curve shows what a channel does from `t0` to `t1`. -/
structure Faithful (c : Channel) (t0 t1 : Binary64) (curve : Curve) : Prop where
  length : 2 ≤ curve.samples.length
  ascending : curve.samples.Pairwise fun v w => v.1 ≤ w.1
  first : ∃ v, curve.samples.head? = some v ∧ v.1.equal t0 = true
  last : ∃ v, curve.samples.getLast? = some v ∧ v.1.equal t1 = true
  /-- the samples at a switch of the interval are the level before it and then the inverse -/
  edges : ∀ s ∈ c.switches, t0 ≤ s → s ≤ t1 →
    curve.samples.filter (·.1.equal s) = [(s, c.state s), (s, !c.state s)]
  /-- the others are those of the ends, where there is no switch -/
  others : curve.samples.filter (fun v => !c.hasSwitchAt v.1) =
    ([t0, t1].filter fun t => !c.hasSwitchAt t).map fun t => (t, c.state t)
  /-- nothing outside is sampled -/
  inside : ∀ v ∈ curve.samples, t0 ≤ v.1 ∧ v.1 ≤ t1
  /-- the level at a time is that of the last sample before it -/
  levels : ∀ q, t0 < q → q ≤ t1 →
    (curve.samples.filter fun v => decide (v.1 < q)).getLast?.map Prod.snd = some (c.state q)

section
variable {c : Channel} {t0 t1 : Binary64} (hle : t0 ≤ t1)
include hle

theorem inside_drawn : ∀ v ∈ c.drawn t0 t1, t0 ≤ v.1 ∧ v.1 ≤ t1 := by
  obtain ⟨h0, h1, -⟩ := Binary64.le_iff.1 hle
  intro v hv
  rcases List.mem_append.1 hv with hv | hv
  · rcases List.mem_append.1 hv with hv | hv
    · rw [(mem_endSample hv).1]
      exact ⟨Binary64.le_self h0, hle⟩
    · exact (mem_edges hv).2
  · rw [(mem_endSample hv).1]
    exact ⟨hle, Binary64.le_self h1⟩

theorem two_le_length_drawn : 2 ≤ (c.drawn t0 t1).length := by
  obtain ⟨h0, h1, -⟩ := Binary64.le_iff.1 hle
  by_cases hempty : c.switches.filter (within t0 t1) = []
  · have hnone : ∀ {t}, t0 ≤ t → t ≤ t1 → c.hasSwitchAt t = false := by
      intro t ht0 ht1
      refine Bool.eq_false_iff.2 fun hat => ?_
      obtain ⟨s, hs, -⟩ := exists_within ht0 ht1 hat
      rw [hempty] at hs
      simp at hs
    simp [drawn, endSample, hempty, hnone (Binary64.le_self h0) hle,
      hnone hle (Binary64.le_self h1)]
  · obtain ⟨s, rest, hcut⟩ := List.exists_cons_of_ne_nil hempty
    rw [drawn, hcut]
    simp only [List.flatMap_cons, edge, List.length_append, List.length_cons]
    omega

variable (h : Ordered c.switches)
include h

theorem ascending_drawn : (c.drawn t0 t1).Pairwise fun v w => v.1 ≤ w.1 := by
  have hend : ∀ t, (c.endSample t).Pairwise fun v w => v.1 ≤ w.1 := by
    intro t
    unfold endSample
    split <;> simp
  have hedges : ((c.switches.filter (within t0 t1)).flatMap c.edge).Pairwise
      fun v w => v.1 ≤ w.1 := by
    have hcut := h.filter (within t0 t1)
    refine List.pairwise_flatMap.2 ⟨fun s hs => ?_, hcut.ascending.imp fun {a b} hab => ?_⟩
    · simp [edge, Binary64.le_self (hcut.number s hs)]
    · have := Binary64.le_of_lt hab
      simp [edge, this]
  refine List.pairwise_append.2 ⟨List.pairwise_append.2 ⟨hend t0, hedges, ?_⟩, hend t1, ?_⟩
  · intro v hv w hw
    rw [(mem_endSample hv).1]
    exact (mem_edges hw).2.1
  · intro v hv w hw
    rw [(mem_endSample hw).1]
    exact (inside_drawn hle v (List.mem_append.2 (.inl hv))).2

theorem first_drawn : ∃ v, (c.drawn t0 t1).head? = some v ∧ v.1.equal t0 = true := by
  have hself := Binary64.le_self (Binary64.le_iff.1 hle).1
  cases hat : c.hasSwitchAt t0 with
  | true =>
    obtain ⟨s, hs, heq⟩ := (hasSwitchAt_first h hle).1 hat
    obtain ⟨rest, hcut⟩ := List.head?_eq_some_iff.1 hs
    exact ⟨(s, c.state s), by simp [drawn, endSample, hat, hcut, edge], heq⟩
  | false => exact ⟨(t0, c.state t0), by simp [drawn, endSample, hat],
      Binary64.equal_iff_le.2 ⟨hself, hself⟩⟩

theorem last_drawn : ∃ v, (c.drawn t0 t1).getLast? = some v ∧ v.1.equal t1 = true := by
  have hself := Binary64.le_self (Binary64.le_iff.1 hle).2.1
  cases hat : c.hasSwitchAt t1 with
  | true =>
    obtain ⟨s, hs, heq⟩ := (hasSwitchAt_last h hle).1 hat
    obtain ⟨init, hcut⟩ := List.getLast?_eq_some_iff.1 hs
    exact ⟨(s, !c.state s), by simp [drawn, endSample, hat, hcut, edge], heq⟩
  | false => exact ⟨(t1, c.state t1), by simp [drawn, endSample, hat],
      Binary64.equal_iff_le.2 ⟨hself, hself⟩⟩

theorem faithful_drawn : c.Faithful t0 t1 ⟨c.drawn t0 t1⟩ where
  length := two_le_length_drawn hle
  ascending := ascending_drawn hle h
  first := first_drawn hle h
  last := last_drawn hle h
  edges _ hs h0 h1 := edges_drawn h hs h0 h1
  others := others_drawn c t0 t1
  inside := inside_drawn hle
  levels _ h0 h1 := levels_drawn h h1 h0

end

/-! ## Curves by value -/

/-- What counts of a sample: where its time lies, and its level. -/
def sampleView (v : Binary64 × Bool) : Int × Bool := (v.1.position, v.2)

/-- **Curves are equal by value** if what counts of their samples is the same. -/
theorem curve_equal_iff {a b : Curve} (ha : ∀ v ∈ a.samples, v.1.isNaN = false)
    (hb : ∀ v ∈ b.samples, v.1.isNaN = false) :
    a.equal b = true ↔ a.samples.map sampleView = b.samples.map sampleView := by
  have hkind : ∀ v ∈ a.samples, ∀ w ∈ b.samples,
      sampleEqual v w = true ↔ sampleView v = sampleView w := by
    intro v hv w hw
    simp only [sampleEqual, sampleView, Bool.and_eq_true, beq_iff_eq, Binary64.equal_iff, ha v hv,
      hb w hw, true_and, Prod.mk.injEq]
  simp only [Curve.equal, Bool.and_eq_true, beq_iff_eq, zip_all_iff hkind]

theorem state_congr {t t' : Binary64} (h : t.equal t' = true) (c : Channel) :
    c.state t = c.state t' := by
  obtain ⟨hle, hge⟩ := Binary64.equal_iff_le.1 h
  have hlt : ∀ s : Binary64, s < t ↔ s < t' := fun s =>
    ⟨fun hs => Binary64.lt_of_lt_of_le hs hle, fun hs => Binary64.lt_of_lt_of_le hs hge⟩
  simp only [state, switchesBefore, hlt]

theorem view_endSample_congr {t t' : Binary64} (h : t.equal t' = true) (c : Channel) :
    (c.endSample t).map sampleView = (c.endSample t').map sampleView := by
  obtain ⟨ht, ht', hpos⟩ := Binary64.equal_iff.1 h
  have hat : c.hasSwitchAt t = c.hasSwitchAt t' := by
    rw [Bool.eq_iff_iff, hasSwitchAt_iff, hasSwitchAt_iff]
    simp only [Binary64.equal_iff, ht, ht', hpos]
  rw [endSample, endSample, hat]
  split
  · rfl
  · simp [sampleView, hpos, state_congr h c]

theorem view_drawn_congr {t0 t0' t1 t1' : Binary64} (h0 : t0.equal t0' = true)
    (h1 : t1.equal t1' = true) (c : Channel) :
    (c.drawn t0 t1).map sampleView = (c.drawn t0' t1').map sampleView := by
  obtain ⟨hle0, hge0⟩ := Binary64.equal_iff_le.1 h0
  obtain ⟨hle1, hge1⟩ := Binary64.equal_iff_le.1 h1
  have hin : within t0 t1 = within t0' t1' := by
    funext s
    rw [Bool.eq_iff_iff, within_iff, within_iff]
    exact ⟨fun hs => ⟨Binary64.le_trans hge0 hs.1, Binary64.le_trans hs.2 hle1⟩,
      fun hs => ⟨Binary64.le_trans hle0 hs.1, Binary64.le_trans hs.2 hge1⟩⟩
  simp only [drawn, List.map_append, hin, view_endSample_congr h0, view_endSample_congr h1]

/-! ## Intervals -/

/-- The ends `a` and `b` of an interval, in whichever order, are `t0` and `t1` by value. -/
structure Spans (a b t0 t1 : Binary64) : Prop where
  order : t0 ≤ t1
  ends : (t0.equal a = true ∧ t1.equal b = true) ∨ (t0.equal b = true ∧ t1.equal a = true)

theorem spans_lesser_greater {a b : Binary64} (ha : a.isNaN = false) (hb : b.isNaN = false) :
    Spans a b (a.lesser b) (a.greater b) := by
  have hself : ∀ {t : Binary64}, t.isNaN = false → t.equal t = true := fun ht =>
    Binary64.equal_iff.2 ⟨ht, ht, rfl⟩
  simp only [Binary64.lesser, Binary64.greater, ha, Bool.false_eq_true, if_false]
  by_cases hba : b < a
  · rw [if_pos hba, if_neg (Binary64.lt_asymm hba)]
    exact ⟨Binary64.le_of_lt hba, .inr ⟨hself hb, hself ha⟩⟩
  · have hab := (Binary64.not_lt hb ha).1 hba
    rw [if_neg hba]
    by_cases hlt : a < b
    · rw [if_pos hlt]
      exact ⟨hab, .inl ⟨hself ha, hself hb⟩⟩
    · have heq := Binary64.equal_iff_le.2 ⟨hab, (Binary64.not_lt ha hb).1 hlt⟩
      rw [if_neg hlt]
      exact ⟨Binary64.le_self ha, .inl ⟨hself ha, heq⟩⟩

theorem Spans.unique {a b t0 t1 t0' t1' : Binary64} (h : Spans a b t0 t1) (h' : Spans b a t0' t1') :
    t0'.equal t0 = true ∧ t1'.equal t1 = true := by
  have horder := Binary64.le_iff.1 h.order
  have horder' := Binary64.le_iff.1 h'.order
  have hends := h.ends
  have hends' := h'.ends
  simp only [Binary64.equal_iff] at hends hends' ⊢
  grind

/-- The curve between two times with the switches taken by their indices, if the channel has
them. -/
def checkedCurveBetween (c : Channel) (a b : Binary64) : Option Curve := do
  let t0 := a.lesser b
  let t1 := a.greater b
  let upTo := c.switches.takeWhile fun s => decide (s ≤ t1)
  return ⟨c.samples t0 t1 (← slice? c.switches (c.switchesBefore t0) upTo.length)⟩

/-- The curve between two times is faithful, whichever of them comes first. -/
structure FaithfulBetween (c : Channel) (a b : Binary64) : Prop where
  /-- no index is out of bounds -/
  bounds : c.checkedCurveBetween a b = some (c.curveBetween a b)
  shown : ∃ t0 t1, Spans a b t0 t1 ∧ c.Faithful t0 t1 (c.curveBetween a b)
  reversed : (c.curveBetween b a).equal (c.curveBetween a b) = true

theorem isNaN_drawn {c : Channel} {t0 t1 : Binary64} (hle : t0 ≤ t1) :
    ∀ v ∈ c.drawn t0 t1, v.1.isNaN = false := fun v hv =>
  (Binary64.le_iff.1 (inside_drawn hle v hv).1).2.1

section
variable {c : Channel} (h : Ordered c.switches)
include h

theorem faithfulBetween {a b : Binary64} (ha : a.isNaN = false) (hb : b.isNaN = false) :
    c.FaithfulBetween a b := by
  have hab := spans_lesser_greater ha hb
  have hba := spans_lesser_greater hb ha
  have hcurve : c.curveBetween a b = ⟨c.drawn (a.lesser b) (a.greater b)⟩ :=
    congrArg Curve.mk (samples_eq_drawn h hab.order)
  have hcurve' : c.curveBetween b a = ⟨c.drawn (b.lesser a) (b.greater a)⟩ :=
    congrArg Curve.mk (samples_eq_drawn h hba.order)
  refine ⟨?_, ⟨_, _, hab, ?_⟩, ?_⟩
  · simp only [checkedCurveBetween, slice?_switches h hab.order]
    rfl
  · rw [hcurve]
    exact faithful_drawn hab.order h
  · obtain ⟨h0, h1⟩ := hab.unique hba
    rw [hcurve, hcurve']
    refine (curve_equal_iff ?_ ?_).2 (view_drawn_congr h0 h1 c)
    · exact isNaN_drawn hba.order
    · exact isNaN_drawn hab.order

theorem faithful_curve {t0 t1 : Binary64} (h0 : c.firstSwitch? = some t0)
    (h1 : c.lastSwitch? = some t1) : c.Faithful t0 t1 c.curve := by
  have hle := h.head_le h0 (List.mem_of_getLast? h1)
  have hall : c.switchesWithin t0 t1 = c.switches := by
    rw [switchesWithin_eq h hle, List.filter_eq_self]
    intro s hs
    exact within_iff.2 ⟨h.head_le h0 hs, h.le_getLast h1 hs⟩
  have hcurve : c.curve = ⟨c.drawn t0 t1⟩ := by
    simp only [curve, h0, h1, ← samples_eq_drawn h hle, hall]
  rw [hcurve]
  exact faithful_drawn hle h

end

/-- **Curves are faithful**, for a channel after any run of switches: between any two times and,
where there are switches, without an interval. -/
theorem curves_faithful (level : Bool) {ts : List Binary64} (hts : ∀ t ∈ ts, t.isNaN = false) :
    let c := ts.foldl addSwitch (resting level)
    (∀ a b, a.isNaN = false → b.isNaN = false → c.FaithfulBetween a b) ∧
      (c.switches ≠ [] → ∃ t0 t1, c.firstSwitch? = some t0 ∧ c.lastSwitch? = some t1 ∧
        c.Faithful t0 t1 c.curve) := by
  intro c
  have hord : Ordered c.switches := ordered_foldl_addSwitch hts (ordered_resting level)
  refine ⟨fun a b ha hb => faithfulBetween hord ha hb, fun hne => ?_⟩
  have h0 := List.head?_eq_some_head hne
  have h1 := List.getLast?_eq_some_getLast hne
  exact ⟨_, _, h0, h1, faithful_curve hord h0 h1⟩

/-- An interval from infinity back to zero, where a switch lies at the other zero. -/
theorem curves_faithful_zeros :
    let minus := Binary64.ofRatio true 0 1
    let ts := [.ofNat 2, minus, .ofNat 3, .ofNat 1, .ofNat 3]
    let c := ts.foldl addSwitch (resting true)
    (∀ t ∈ ts, t.isNaN = false) ∧
      (c.curveBetween (.infinite false) Binary64.zero).samples =
        [(minus, true), (minus, false), (.ofNat 1, false), (.ofNat 1, true), (.ofNat 2, true),
          (.ofNat 2, false), (.infinite false, false)] ∧
      c.FaithfulBetween (.infinite false) Binary64.zero ∧
      c.Faithful minus (.ofNat 2) c.curve := by
  intro minus ts c
  have hts : ∀ t ∈ ts, t.isNaN = false := by decide +kernel
  obtain ⟨hbetween, hspan⟩ := curves_faithful true hts
  obtain ⟨t0, t1, h0, h1, hcurve⟩ := hspan (by decide +kernel)
  have hends : c.firstSwitch? = some minus ∧ c.lastSwitch? = some (.ofNat 2) := by decide +kernel
  obtain rfl : minus = t0 := Option.some.inj (hends.1.symm.trans h0)
  obtain rfl : Binary64.ofNat 2 = t1 := Option.some.inj (hends.2.symm.trans h1)
  exact ⟨hts, by decide +kernel, hbetween _ _ (by decide) (by decide +kernel), hcurve⟩

end Channel
end PulseSequencer
