import PulseSequencer.Proofs.Sequence.Interval

/-!
Writing the ends of a sequence.

Both ends are written by one rule, read in the two directions of time.  A bound keeps the times on
its inner side (`Bound.Keeps`).  Only the outermost switch of a channel is looked at, but since the
switches ascend, a bound that keeps it keeps them all (`admits_iff`).  So a bound is accepted
exactly if it keeps every switch and the other end (`WellFormed.setBound_eq_ok`), and then nothing
widens the interval beyond it: it reads back as it was written (`WellFormed.effective_equal`).  A
bound that cuts off a switch is refused for the first channel with such a switch
(`WellFormed.exists_setBound_clips`).
-/

namespace PulseSequencer

namespace Bound

/-- The opposite end. -/
def other : Bound → Bound
  | .start => .stop
  | .stop => .start

/-- A bound at `v` does not cut off the time `t`. -/
def Keeps : Bound → Binary64 → Binary64 → Prop
  | .start, v, t => v ≤ t
  | .stop, v, t => t ≤ v

/-- A bound at `v` cuts off the time `t`. -/
def Cuts : Bound → Binary64 → Binary64 → Prop
  | .start, v, t => t < v
  | .stop, v, t => v < t

instance : (b : Bound) → (v t : Binary64) → Decidable (b.Keeps v t)
  | .start, v, t => inferInstanceAs (Decidable (v ≤ t))
  | .stop, v, t => inferInstanceAs (Decidable (t ≤ v))

instance : (b : Bound) → (v t : Binary64) → Decidable (b.Cuts v t)
  | .start, v, t => inferInstanceAs (Decidable (t < v))
  | .stop, v, t => inferInstanceAs (Decidable (v < t))

theorem not_cuts {b : Bound} {v t : Binary64} (hv : v.isNaN = false) (ht : t.isNaN = false) :
    ¬ b.Cuts v t ↔ b.Keeps v t := by
  cases b with
  | start => exact Binary64.not_lt ht hv
  | stop => exact Binary64.not_lt hv ht

theorem Keeps.trans {b : Bound} {v t u : Binary64} (hvt : b.Keeps v t) (htu : b.Keeps t u) :
    b.Keeps v u := by
  cases b with
  | start => exact Binary64.le_trans hvt htu
  | stop => exact Binary64.le_trans htu hvt

theorem Keeps.refl (b : Bound) {t : Binary64} (ht : t.isFinite = true) : b.Keeps t t := by
  cases b <;> exact Binary64.le_refl ht

theorem Keeps.equal {b : Bound} {v t : Binary64} (hvt : b.Keeps v t) (htv : b.Keeps t v) :
    t.equal v = true := by
  have hle : t ≤ v ∧ v ≤ t := by
    cases b with
    | start => exact ⟨htv, hvt⟩
    | stop => exact ⟨hvt, htv⟩
  obtain ⟨ht, hv, htv⟩ := Binary64.le_iff.1 hle.1
  have hvt := (Binary64.le_iff.1 hle.2).2.2
  exact Binary64.equal_iff.2 ⟨ht, hv, Int.le_antisymm htv hvt⟩

end Bound

namespace Channel

/-- The switch of a channel next to a bound. -/
def outermost? (c : Channel) : Bound → Option Binary64
  | .start => c.firstSwitch?
  | .stop => c.lastSwitch?

theorem mem_of_outermost? {c : Channel} {b : Bound} {t : Binary64} (h : c.outermost? b = some t) :
    t ∈ c.switches := by
  cases b with
  | start => exact List.mem_of_head? h
  | stop => exact List.mem_of_getLast? h

theorem exists_outermost? {c : Channel} {u : Binary64} (hu : u ∈ c.switches) (b : Bound) :
    ∃ t, c.outermost? b = some t := by
  have hne : c.switches ≠ [] := List.ne_nil_of_mem hu
  cases b with
  | start => exact ⟨_, List.head?_eq_some_head hne⟩
  | stop => exact ⟨_, List.getLast?_eq_some_getLast hne⟩

theorem WellFormed.keeps_of_outermost? {c : Channel} (h : c.WellFormed) {b : Bound} {t u : Binary64}
    (ht : c.outermost? b = some t) (hu : u ∈ c.switches) : b.Keeps t u := by
  cases b with
  | start => exact h.first_le ht hu
  | stop => exact h.le_last ht hu

theorem WellFormed.keeps_iff {c : Channel} (h : c.WellFormed) {b : Bound} {v : Binary64} :
    (∀ t, c.outermost? b = some t → b.Keeps v t) ↔ ∀ t ∈ c.switches, b.Keeps v t := by
  constructor
  · intro hout u hu
    obtain ⟨t, ht⟩ := exists_outermost? hu b
    exact (hout t ht).trans (h.keeps_of_outermost? ht hu)
  · intro hall t ht
    exact hall t (mem_of_outermost? ht)

end Channel

namespace Sequence

/-! ## When a bound is accepted -/

/-- **A bound is checked against every switch**, though only the outermost ones are looked at. -/
theorem admits_iff {c : Channel} (h : c.WellFormed) {b : Bound} {v : Binary64}
    (hv : v.isNaN = false) : Admits b v c ↔ ∀ t ∈ c.switches, b.Keeps v t := by
  have hadmits : Admits b v c ↔ ∀ t, c.outermost? b = some t → ¬ b.Cuts v t := by
    cases b <;> rfl
  rw [← h.keeps_iff, hadmits]
  refine forall_congr' fun t => forall_congr' fun ht => Bound.not_cuts hv ?_
  exact h.ordered.number t (Channel.mem_of_outermost? ht)

/-- A bound keeps all switches. -/
def KeptBy (s : Sequence) (b : Bound) (v : Binary64) : Prop :=
  ∀ c ∈ s.channels, ∀ t ∈ c.switches, b.Keeps v t

theorem WellFormed.admits_iff_keptBy {s : Sequence} (h : s.WellFormed) {b : Bound} {v : Binary64}
    (hv : v.isFinite = true) : (∀ c ∈ s.channels, Admits b v c) ↔ s.KeptBy b v :=
  forall_congr' fun c => forall_congr' fun hc =>
    admits_iff (h.channels c hc) (Binary64.isNaN_of_isFinite hv)

/-- The effective end of a sequence. -/
def effective (s : Sequence) : Bound → Binary64
  | .start => s.startTime
  | .stop => s.stopTime

def declared (s : Sequence) : Bound → Binary64
  | .start => s.declaredStart
  | .stop => s.declaredStop

def withDeclared (s : Sequence) (v : Binary64) : Bound → Sequence
  | .start => { s with declaredStart := v }
  | .stop => { s with declaredStop := v }

/-- Writes one end. -/
def setBound (s : Sequence) (v : Binary64) : Bound → Except ValidationError Sequence
  | .start => s.setStart v
  | .stop => s.setStop v

theorem WellFormed.setBound {s s' : Sequence} (h : s.WellFormed) {v : Binary64} {b : Bound}
    (hok : s.setBound v b = .ok s') : s'.WellFormed := by
  cases b with
  | start => exact h.edit (e := .setStart v) hok
  | stop => exact h.edit (e := .setStop v) hok

@[simp] theorem channels_withDeclared (s : Sequence) (v : Binary64) (b : Bound) :
    (s.withDeclared v b).channels = s.channels := by
  cases b <;> rfl

@[simp] theorem declared_withDeclared (s : Sequence) (v : Binary64) (b : Bound) :
    (s.withDeclared v b).declared b = v := by
  cases b <;> rfl

@[simp] theorem effective_withDeclared_other (s : Sequence) (v : Binary64) (b : Bound) :
    (s.withDeclared v b).effective b.other = s.effective b.other := by
  cases b <;> rfl

section
variable {s : Sequence} (h : s.WellFormed)
include h

theorem WellFormed.effective_isFinite (b : Bound) : (s.effective b).isFinite = true := by
  cases b with
  | start => exact h.startTime_isFinite
  | stop => exact h.stopTime_isFinite

theorem WellFormed.keeps_effective_iff {b : Bound} {v : Binary64} (hv : v.isFinite = true) :
    b.Keeps v (s.effective b) ↔ b.Keeps v (s.declared b) ∧ s.KeptBy b v := by
  cases b with
  | start => exact h.le_startTime_iff hv
  | stop => exact h.stopTime_le_iff hv

/-- **A declared end that keeps all switches** is the effective end. -/
theorem WellFormed.effective_equal {b : Bound} {v : Binary64} (hv : v.isFinite = true)
    (hdecl : s.declared b = v) (hkept : s.KeptBy b v) : (s.effective b).equal v = true := by
  have hfin := h.effective_isFinite b
  have hwide : b.Keeps (s.effective b) v :=
    hdecl ▸ ((h.keeps_effective_iff hfin).1 (.refl b hfin)).1
  have hnarrow : b.Keeps v (s.effective b) :=
    (h.keeps_effective_iff hv).2 ⟨hdecl.symm ▸ .refl b hv, hkept⟩
  exact hnarrow.equal hwide

/-- **A bound is accepted** exactly if it keeps every switch and the other end. -/
theorem WellFormed.setBound_eq_ok {s' : Sequence} {b : Bound} {v : Binary64} :
    s.setBound v b = .ok s' ↔ v.isFinite = true ∧ s.KeptBy b v ∧
      b.Keeps v (s.effective b.other) ∧ s' = s.withDeclared v b := by
  have hchecks : s.setBound v b = .ok s' ↔ v.isFinite = true ∧
      (∀ c ∈ s.channels, Admits b v c) ∧ ¬ b.Cuts v (s.effective b.other) ∧
      s' = s.withDeclared v b := by
    cases b with
    | start => exact setStart_eq_ok
    | stop => exact setStop_eq_ok
  rw [hchecks]
  refine and_congr_right fun hv => ?_
  rw [h.admits_iff_keptBy hv, Bound.not_cuts (Binary64.isNaN_of_isFinite hv)
    (Binary64.isNaN_of_isFinite (h.effective_isFinite _))]

theorem WellFormed.withInterval_eq_ok_keptBy {s' : Sequence} {start : Binary64}
    {stop? : Option Binary64} :
    s.withInterval start stop? = .ok s' ↔
      start.isFinite = true ∧ (stop?.getD start).isFinite = true ∧ start ≤ stop?.getD start ∧
      s.KeptBy .start start ∧ s.KeptBy .stop (stop?.getD start) ∧
      s' = { s with declaredStart := start, declaredStop := stop?.getD start } := by
  rw [withInterval_eq_ok]
  refine and_congr_right fun hstart => and_congr_right fun hstop => ?_
  rw [h.admits_iff_keptBy hstart, h.admits_iff_keptBy hstop,
    Binary64.not_lt (Binary64.isNaN_of_isFinite hstop) (Binary64.isNaN_of_isFinite hstart)]

end

/-! ## Why a bound is refused -/

/-- Channel `i` is the first that a bound at `v` cuts, and its outermost switch is at `t`. -/
structure Clips (s : Sequence) (b : Bound) (v : Binary64) (i : Nat) (t : Binary64) : Prop where
  channel : ∃ c, s.channels[i]? = some c ∧ t ∈ c.switches ∧ b.Cuts v t ∧
    ∀ u ∈ c.switches, b.Keeps t u
  lowest : ∀ j < i, ∀ c, s.channels[j]? = some c → ∀ u ∈ c.switches, ¬ b.Cuts v u

theorem zipIdx_split {α : Type} {l : List α} {before after : List (α × Nat)} {a : α} {i : Nat}
    (h : l.zipIdx = before ++ (a, i) :: after) :
    l[i]? = some a ∧ ∀ j < i, ∀ a', l[j]? = some a' → (a', j) ∈ before := by
  have hnumbered : ∀ k : Nat, l[k]?.map (·, k) = (before ++ (a, i) :: after)[k]? := by
    intro k
    rw [← h, List.getElem?_zipIdx, Nat.zero_add]
  have hat := hnumbered before.length
  rw [List.getElem?_append_right (Nat.le_refl _), Nat.sub_self, List.getElem?_cons_zero] at hat
  obtain ⟨a', ha', heq⟩ := Option.map_eq_some_iff.1 hat
  obtain ⟨rfl, rfl⟩ := Prod.mk.inj heq
  refine ⟨ha', fun j hj d hd => ?_⟩
  have hat := hnumbered j
  rw [hd, List.getElem?_append_left hj] at hat
  exact List.mem_of_getElem? hat.symm

section
variable {s : Sequence} (h : s.WellFormed) {b : Bound} {v : Binary64}
include h

/-- **The channel that is found** is the first one that is cut. -/
theorem WellFormed.clips_of_clipped? (hv : v.isNaN = false) {i : Nat} {t : Binary64}
    (hclip : s.clipped? b v = some (i, t)) : s.Clips b v i t := by
  unfold clipped? at hclip
  obtain ⟨before, ⟨c, j⟩, after, hsplit, hfound, hnone⟩ := List.findSome?_eq_some_iff.1 hclip
  have hcut : c.outermost? b = some t ∧ b.Cuts v t ∧ j = i := by
    cases b with
    | start =>
      have hfirst : (c.firstSwitch? = some t ∧ t < v) ∧ j = i := by
        simpa [Option.filter_eq_some_iff] using hfound
      exact ⟨hfirst.1.1, hfirst.1.2, hfirst.2⟩
    | stop =>
      have hlast : (c.lastSwitch? = some t ∧ v < t) ∧ j = i := by
        simpa [Option.filter_eq_some_iff] using hfound
      exact ⟨hlast.1.1, hlast.1.2, hlast.2⟩
  obtain ⟨hout, hcuts, rfl⟩ := hcut
  obtain ⟨hi, hearlier⟩ := zipIdx_split hsplit
  refine ⟨⟨c, hi, Channel.mem_of_outermost? hout, hcuts, fun u hu =>
    (h.channels c (List.mem_of_getElem? hi)).keeps_of_outermost? hout hu⟩, ?_⟩
  intro k hk d hd u hu
  have hadmits : Admits b v d := by
    have hout := hnone (d, k) (hearlier k hk d hd)
    cases b <;> simpa [Admits, Option.filter_eq_none_iff] using hout
  have hw := h.channels d (List.mem_of_getElem? hd)
  exact (Bound.not_cuts hv (hw.ordered.number u hu)).2 ((admits_iff hw hv).1 hadmits u hu)

/-- **A bound that cuts a switch** is refused for the first channel with such a switch. -/
theorem WellFormed.exists_setBound_clips (hv : v.isFinite = true)
    (hcut : ∃ c ∈ s.channels, ∃ t ∈ c.switches, b.Cuts v t) :
    ∃ i t, s.setBound v b = .error (.boundClipsSwitch b v i t) ∧ s.Clips b v i t := by
  have hn := Binary64.isNaN_of_isFinite hv
  cases hclip : s.clipped? b v with
  | none =>
    -- With no channel found, every switch would be kept.
    have hok : s.checkBound b v = .ok () := by
      unfold checkBound
      rw [hclip]
    obtain ⟨c, hc, t, ht, hcuts⟩ := hcut
    have hkept := (h.admits_iff_keptBy hv).1 (checkBound_eq_ok.1 hok)
    have ht' := (h.channels c hc).ordered.number t ht
    exact absurd hcuts ((Bound.not_cuts hn ht').2 (hkept c hc t ht))
  | some found =>
    obtain ⟨i, t⟩ := found
    refine ⟨i, t, ?_, h.clips_of_clipped? hn hclip⟩
    have hcheck : s.checkBound b v = .error (.boundClipsSwitch b v i t) := by
      unfold checkBound
      rw [hclip]
    cases b with
    | start =>
      exact Except.bind_eq_error.2
        (.inr ⟨(), Validation.time_eq_ok.2 hv, Except.bind_eq_error.2 (.inl hcheck)⟩)
    | stop =>
      exact Except.bind_eq_error.2
        (.inr ⟨(), Validation.time_eq_ok.2 hv, Except.bind_eq_error.2 (.inl hcheck)⟩)

end

/-! ## Writes -/

/-- What writing `v` to one end of a sequence does. -/
structure WritesBound (s : Sequence) (b : Bound) (v : Binary64) : Prop where
  accepted : (∃ s', s.setBound v b = .ok s') ↔ v.isFinite = true ∧
    (∀ c ∈ s.channels, ∀ t ∈ c.switches, b.Keeps v t) ∧ b.Keeps v (s.effective b.other)
  written : ∀ s', s.setBound v b = .ok s' → (s'.effective b).equal v = true ∧
    s'.effective b.other = s.effective b.other ∧ s'.channels = s.channels ∧ s'.defaults = s.defaults
  clipped : v.isFinite = true → (∃ c ∈ s.channels, ∃ t ∈ c.switches, b.Cuts v t) →
    ∃ i t, s.setBound v b = .error (.boundClipsSwitch b v i t) ∧ s.Clips b v i t

/-- What declaring the interval from `start` to `stop` does. -/
structure WritesInterval (s : Sequence) (start : Binary64) (stop? : Option Binary64)
    (stop : Binary64) : Prop where
  accepted : (∃ s', s.withInterval start stop? = .ok s') ↔ start.isFinite = true ∧
    stop.isFinite = true ∧ start ≤ stop ∧ ∀ c ∈ s.channels, ∀ t ∈ c.switches, start ≤ t ∧ t ≤ stop
  written : ∀ s', s.withInterval start stop? = .ok s' →
    s'.startTime.equal start = true ∧ s'.stopTime.equal stop = true

/-- **Bounds are written exactly.** An end of a sequence can be moved to every finite time that
keeps all switches and the other end, and reads back as written; if it cuts off a switch, the first
channel with such a switch is named.  Both ends at once are written by the same rule. -/
theorem bounds_written {s : Sequence} (hs : s.Reachable) :
    (∀ b v, s.WritesBound b v) ∧
    ∀ start stop?, s.WritesInterval start stop? (stop?.getD start) := by
  have hw := hs.wellFormed
  refine ⟨fun b v => ?_, fun start stop? => ?_⟩
  · refine ⟨⟨?_, ?_⟩, fun s' h => ?_, hw.exists_setBound_clips⟩
    · rintro ⟨s', h⟩
      obtain ⟨hv, hkept, hother, -⟩ := hw.setBound_eq_ok.1 h
      exact ⟨hv, hkept, hother⟩
    · rintro ⟨hv, hkept, hother⟩
      exact ⟨_, hw.setBound_eq_ok.2 ⟨hv, hkept, hother, rfl⟩⟩
    · have hw' := hw.setBound h
      obtain ⟨hv, hkept, -, rfl⟩ := hw.setBound_eq_ok.1 h
      refine ⟨hw'.effective_equal hv (declared_withDeclared s v b) ?_,
        effective_withDeclared_other s v b, channels_withDeclared s v b, ?_⟩
      · simpa [KeptBy] using hkept
      · simp [defaults]
  · refine ⟨⟨?_, ?_⟩, fun s' h => ?_⟩
    · rintro ⟨s', h⟩
      obtain ⟨hstart, hstop, hle, hkept, hkept', -⟩ := hw.withInterval_eq_ok_keptBy.1 h
      exact ⟨hstart, hstop, hle, fun c hc t ht => ⟨hkept c hc t ht, hkept' c hc t ht⟩⟩
    · rintro ⟨hstart, hstop, hle, hkept⟩
      exact ⟨_, hw.withInterval_eq_ok_keptBy.2 ⟨hstart, hstop, hle,
        fun c hc t ht => (hkept c hc t ht).1, fun c hc t ht => (hkept c hc t ht).2, rfl⟩⟩
    · have hw' : s'.WellFormed := hw.edit (e := .interval start stop?) h
      obtain ⟨hstart, hstop, -, hkept, hkept', rfl⟩ := hw.withInterval_eq_ok_keptBy.1 h
      exact ⟨hw'.effective_equal (b := .start) hstart rfl hkept,
        hw'.effective_equal (b := .stop) hstop rfl hkept'⟩

/-- A stop at 5 cuts channels 1 and 2, of which the first is named although the other reaches
further; 9 is the earliest stop, and 1 to 9 the narrowest interval. -/
theorem bounds_written_first :
    let s := [Edit.addPulse 1 (.ofNat 2) (.ofNat 4), .addPulse 2 (.ofNat 1) (.ofNat 8),
        .setStop (.ofNat 20)].foldl Sequence.attempt
      ⟨[false, true, false].map Channel.resting, Binary64.zero, Binary64.zero⟩
    s.Reachable ∧ s.clipped? .stop (.ofNat 5) = some (1, .ofNat 6) ∧
      (∃ i t, s.setStop (.ofNat 5) = .error (.boundClipsSwitch .stop (.ofNat 5) i t) ∧
        s.Clips .stop (.ofNat 5) i t) ∧
      (∃ s', s.setStop (.ofNat 9) = .ok s' ∧ s'.stopTime.equal (.ofNat 9) = true) ∧
      ∃ s', s.withInterval (.ofNat 1) (some (.ofNat 9)) = .ok s' ∧
        s'.startTime.equal (.ofNat 1) = true ∧ s'.stopTime.equal (.ofNat 9) = true := by
  intro s
  have hs : s.Reachable := .attempt _ (.attempt _ (.attempt _
    (@Sequence.Reachable.withDefaults [false, true, false] _ rfl)))
  obtain ⟨hbound, hinterval⟩ := bounds_written hs
  have hclip : s.clipped? .stop (.ofNat 5) = some (1, .ofNat 6) := by decide +kernel
  have hcut : ∃ c ∈ s.channels, ∃ t ∈ c.switches, Bound.stop.Cuts (.ofNat 5) t := by
    decide +kernel
  have hkept : ∀ c ∈ s.channels, ∀ t ∈ c.switches, Binary64.ofNat 1 ≤ t ∧ t ≤ .ofNat 9 := by
    decide +kernel
  obtain ⟨s₁, hs₁⟩ := (hbound .stop (.ofNat 9)).accepted.2
    ⟨by decide +kernel, fun c hc t ht => (hkept c hc t ht).2, by decide +kernel⟩
  obtain ⟨s₂, hs₂⟩ := (hinterval (.ofNat 1) (some (.ofNat 9))).accepted.2
    ⟨by decide +kernel, by decide +kernel, by decide +kernel, hkept⟩
  exact ⟨hs, hclip, (hbound .stop (.ofNat 5)).clipped (by decide +kernel) hcut,
    ⟨s₁, hs₁, ((hbound .stop _).written s₁ hs₁).1⟩, s₂, hs₂, (hinterval _ _).written s₂ hs₂⟩

end Sequence
end PulseSequencer
