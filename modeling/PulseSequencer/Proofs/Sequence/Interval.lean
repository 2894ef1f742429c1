import PulseSequencer.Proofs.Sequence.Reachable

/-!
The effective interval of a sequence.

The effective start is the greatest lower bound of the declared start and all switches
(`le_startTime_iff`), the effective stop the least upper bound of the declared stop and all
switches (`stopTime_le_iff`).  So every switch lies between them.

A write of one declared end is checked against the other effective end, which switches may hold
apart.  The declared ends can then be in the wrong order, which shows as soon as the last switch
is cancelled: `startTime_le_stopTime_iff` says that this is the only way for the effective ends to
be in the wrong order.
-/

namespace PulseSequencer
namespace Sequence

open Binary64 (lesser greater)

/-! ## Bounds of folds -/

theorem foldl_lesser_isFinite : ∀ {l : List Binary64} {a : Binary64}, a.isFinite = true →
    (∀ x ∈ l, x.isFinite = true) → (l.foldl lesser a).isFinite = true
  | [], _, ha, _ => ha
  | x :: l, _, ha, hl =>
    foldl_lesser_isFinite (l := l) (Binary64.lesser_isFinite ha (hl x (by simp)))
      fun y hy => hl y (by simp [hy])

theorem foldl_greater_isFinite : ∀ {l : List Binary64} {a : Binary64}, a.isFinite = true →
    (∀ x ∈ l, x.isFinite = true) → (l.foldl greater a).isFinite = true
  | [], _, ha, _ => ha
  | x :: l, _, ha, hl =>
    foldl_greater_isFinite (l := l) (Binary64.greater_isFinite ha (hl x (by simp)))
      fun y hy => hl y (by simp [hy])

theorem le_foldl_lesser_iff {v : Int} : ∀ {l : List Binary64} {a : Binary64}, a.isFinite = true →
    (∀ x ∈ l, x.isFinite = true) →
    (v ≤ (l.foldl lesser a).signedUnits ↔ v ≤ a.signedUnits ∧ ∀ x ∈ l, v ≤ x.signedUnits)
  | [], _, _, _ => by simp
  | x :: l, a, ha, hl => by
    have hx := hl x (by simp)
    rw [List.foldl_cons, le_foldl_lesser_iff (Binary64.lesser_isFinite ha hx)
      fun y hy => hl y (by simp [hy]), Binary64.signedUnits_lesser ha hx]
    simp only [List.forall_mem_cons, Int.le_min, and_assoc]

theorem foldl_greater_le_iff {v : Int} : ∀ {l : List Binary64} {a : Binary64}, a.isFinite = true →
    (∀ x ∈ l, x.isFinite = true) →
    ((l.foldl greater a).signedUnits ≤ v ↔ a.signedUnits ≤ v ∧ ∀ x ∈ l, x.signedUnits ≤ v)
  | [], _, _, _ => by simp
  | x :: l, a, ha, hl => by
    have hx := hl x (by simp)
    rw [List.foldl_cons, foldl_greater_le_iff (Binary64.greater_isFinite ha hx)
      fun y hy => hl y (by simp [hy]), Binary64.signedUnits_greater ha hx]
    simp only [List.forall_mem_cons, Int.max_le, and_assoc]

/-! ## The effective ends -/

section
variable {s : Sequence} (h : s.WellFormed)
include h

theorem WellFormed.isFinite_of_mem {c : Channel} (hc : c ∈ s.channels) {t : Binary64}
    (ht : t ∈ c.switches) : t.isFinite = true := (h.channels c hc).finite t ht

theorem WellFormed.firsts_isFinite :
    ∀ t ∈ s.channels.filterMap Channel.firstSwitch?, t.isFinite = true := by
  intro t ht
  obtain ⟨c, hc, hct⟩ := List.mem_filterMap.1 ht
  exact h.isFinite_of_mem hc (List.mem_of_head? hct)

theorem WellFormed.lasts_isFinite :
    ∀ t ∈ s.channels.filterMap Channel.lastSwitch?, t.isFinite = true := by
  intro t ht
  obtain ⟨c, hc, hct⟩ := List.mem_filterMap.1 ht
  exact h.isFinite_of_mem hc (List.mem_of_getLast? hct)

theorem WellFormed.startTime_isFinite : s.startTime.isFinite = true :=
  foldl_lesser_isFinite h.start h.firsts_isFinite

theorem WellFormed.stopTime_isFinite : s.stopTime.isFinite = true :=
  foldl_greater_isFinite h.stop h.lasts_isFinite

/-- **The effective start** is the latest time with neither the declared start nor a switch before
it. -/
theorem WellFormed.le_startTime_iff {v : Binary64} (hv : v.isFinite = true) :
    v ≤ s.startTime ↔ v ≤ s.declaredStart ∧ ∀ c ∈ s.channels, ∀ t ∈ c.switches, v ≤ t := by
  rw [Binary64.le_iff_signedUnits hv h.startTime_isFinite, Binary64.le_iff_signedUnits hv h.start,
    startTime, le_foldl_lesser_iff h.start h.firsts_isFinite]
  refine and_congr_right fun _ => ⟨fun hall c hc t ht => ?_, fun hall t ht => ?_⟩
  · cases hf : c.firstSwitch? with
    | none =>
      have : c.switches = [] := List.head?_eq_none_iff.1 hf
      simp [this] at ht
    | some first =>
      have hle := hall first (List.mem_filterMap.2 ⟨c, hc, hf⟩)
      have hft := (h.channels c hc).first_le hf ht
      have hfin := h.isFinite_of_mem hc (List.mem_of_head? hf)
      exact Binary64.le_trans ((Binary64.le_iff_signedUnits hv hfin).2 hle) hft
  · obtain ⟨c, hc, hct⟩ := List.mem_filterMap.1 ht
    have hmem := List.mem_of_head? hct
    exact (Binary64.le_iff_signedUnits hv (h.isFinite_of_mem hc hmem)).1 (hall c hc t hmem)

/-- **The effective stop** is the earliest time with neither the declared stop nor a switch after
it. -/
theorem WellFormed.stopTime_le_iff {v : Binary64} (hv : v.isFinite = true) :
    s.stopTime ≤ v ↔ s.declaredStop ≤ v ∧ ∀ c ∈ s.channels, ∀ t ∈ c.switches, t ≤ v := by
  rw [Binary64.le_iff_signedUnits h.stopTime_isFinite hv, Binary64.le_iff_signedUnits h.stop hv,
    stopTime, foldl_greater_le_iff h.stop h.lasts_isFinite]
  refine and_congr_right fun _ => ⟨fun hall c hc t ht => ?_, fun hall t ht => ?_⟩
  · cases hl : c.lastSwitch? with
    | none =>
      have : c.switches = [] := List.getLast?_eq_none_iff.1 hl
      simp [this] at ht
    | some last =>
      have hle := hall last (List.mem_filterMap.2 ⟨c, hc, hl⟩)
      have htl := (h.channels c hc).le_last hl ht
      have hfin := h.isFinite_of_mem hc (List.mem_of_getLast? hl)
      exact Binary64.le_trans htl ((Binary64.le_iff_signedUnits hfin hv).2 hle)
  · obtain ⟨c, hc, hct⟩ := List.mem_filterMap.1 ht
    have hmem := List.mem_of_getLast? hct
    exact (Binary64.le_iff_signedUnits (h.isFinite_of_mem hc hmem) hv).1 (hall c hc t hmem)

theorem WellFormed.startTime_le_declaredStart : s.startTime ≤ s.declaredStart :=
  ((h.le_startTime_iff h.startTime_isFinite).1 (Binary64.le_refl h.startTime_isFinite)).1

theorem WellFormed.startTime_le {c : Channel} (hc : c ∈ s.channels) {t : Binary64}
    (ht : t ∈ c.switches) : s.startTime ≤ t :=
  ((h.le_startTime_iff h.startTime_isFinite).1 (Binary64.le_refl h.startTime_isFinite)).2 c hc t ht

theorem WellFormed.declaredStop_le_stopTime : s.declaredStop ≤ s.stopTime :=
  ((h.stopTime_le_iff h.stopTime_isFinite).1 (Binary64.le_refl h.stopTime_isFinite)).1

theorem WellFormed.le_stopTime {c : Channel} (hc : c ∈ s.channels) {t : Binary64}
    (ht : t ∈ c.switches) : t ≤ s.stopTime :=
  ((h.stopTime_le_iff h.stopTime_isFinite).1 (Binary64.le_refl h.stopTime_isFinite)).2 c hc t ht

theorem WellFormed.declared_of_empty (hempty : ∀ c ∈ s.channels, c.switches = []) :
    s.declaredStart ≤ s.startTime ∧ s.stopTime ≤ s.declaredStop := by
  refine ⟨(h.le_startTime_iff h.start).2 ⟨Binary64.le_refl h.start, fun c hc t ht => ?_⟩,
    (h.stopTime_le_iff h.stop).2 ⟨Binary64.le_refl h.stop, fun c hc t ht => ?_⟩⟩ <;>
  · rw [hempty c hc] at ht
    simp at ht

/-- A switch holds the effective ends in order; without one the declared ends decide. -/
theorem WellFormed.ordered_iff : s.startTime ≤ s.stopTime ↔
    (∃ c ∈ s.channels, c.switches ≠ []) ∨ s.declaredStart ≤ s.declaredStop := by
  constructor
  · intro hle
    by_cases hsw : ∃ c ∈ s.channels, c.switches ≠ []
    · exact .inl hsw
    · have hempty : ∀ c ∈ s.channels, c.switches = [] := fun c hc =>
        Classical.byContradiction fun hne => hsw ⟨c, hc, hne⟩
      obtain ⟨h1, h2⟩ := h.declared_of_empty hempty
      exact .inr (Binary64.le_trans h1 (Binary64.le_trans hle h2))
  · rintro (⟨c, hc, hne⟩ | hle)
    · obtain ⟨t, ht⟩ := List.exists_mem_of_ne_nil _ hne
      exact Binary64.le_trans (h.startTime_le hc ht) (h.le_stopTime hc ht)
    · exact Binary64.le_trans h.startTime_le_declaredStart
        (Binary64.le_trans hle h.declaredStop_le_stopTime)

/-- An edit that leaves no switch leaves the order of the declared ends as it was, or right: a new
end is checked against the other one, which no switch moves any more. -/
theorem WellFormed.declared_lt_of_edit {s' : Sequence} {e : Edit} (he : s.edit e = .ok s')
    (hempty : ∀ c ∈ s'.channels, c.switches = []) (hlt : s'.declaredStop < s'.declaredStart) :
    s.declaredStop < s.declaredStart := by
  cases e with
  | interval start stop =>
    obtain ⟨-, -, hord, -, -, rfl⟩ := withInterval_eq_ok.1 he
    exact absurd hlt hord
  | setDefault i level =>
    obtain ⟨-, rfl⟩ := modifyChannel_eq_ok.1 he
    exact hlt
  | switch i t =>
    obtain ⟨-, -, rfl⟩ := addSwitch_eq_ok.1 he
    exact hlt
  | addPulse i t0 d =>
    obtain ⟨-, -, -, -, rfl⟩ := addPulse_eq_ok.1 he
    exact hlt
  | appendPulse i delay d =>
    obtain ⟨-, -, c, -, -, rfl⟩ := appendPulse_eq_ok.1 he
    exact hlt
  | setStart v =>
    obtain ⟨hv, -, hord, rfl⟩ := setStart_eq_ok.1 he
    have hstop := (h.declared_of_empty hempty).2
    rw [Binary64.le_iff_signedUnits h.stopTime_isFinite h.stop] at hstop
    rw [Binary64.lt_iff_signedUnits h.stop hv] at hlt
    rw [Binary64.lt_iff_signedUnits h.stopTime_isFinite hv] at hord
    omega
  | setStop v =>
    obtain ⟨hv, -, hord, rfl⟩ := setStop_eq_ok.1 he
    have hstart := (h.declared_of_empty hempty).1
    rw [Binary64.le_iff_signedUnits h.start h.startTime_isFinite] at hstart
    rw [Binary64.lt_iff_signedUnits hv h.start] at hlt
    rw [Binary64.lt_iff_signedUnits hv h.startTime_isFinite] at hord
    omega

end

/-- **The order of the effective ends.** In every reachable sequence they are in order exactly if
there is a switch or the declared ends are in order.  An edit inverts them only by cancelling the
last switches of a sequence whose declared ends the switches had allowed to be written in the wrong
order. -/
theorem startTime_le_stopTime_iff {s : Sequence} (hs : s.Reachable) :
    (s.startTime ≤ s.stopTime ↔
      (∃ c ∈ s.channels, c.switches ≠ []) ∨ s.declaredStart ≤ s.declaredStop) ∧
    ∀ e : Edit, s.startTime ≤ s.stopTime → ¬ (s.attempt e).startTime ≤ (s.attempt e).stopTime →
      s.declaredStop < s.declaredStart ∧ (∃ c ∈ s.channels, c.switches ≠ []) ∧
        ∀ c ∈ (s.attempt e).channels, c.switches = [] := by
  have h := hs.wellFormed
  refine ⟨h.ordered_iff, fun e hord hinv => ?_⟩
  rcases attempt_eq (s := s) (e := e) with ⟨s', he, hs'⟩ | hs'
  · rw [hs'] at hinv ⊢
    have h' := h.edit he
    rw [h'.ordered_iff, not_or] at hinv
    obtain ⟨hsw, hdecl⟩ := hinv
    have hempty : ∀ c ∈ s'.channels, c.switches = [] := fun c hc =>
      Classical.byContradiction fun hne => hsw ⟨c, hc, hne⟩
    have hlt' : s'.declaredStop < s'.declaredStart := by
      rw [Binary64.le_iff_signedUnits h'.start h'.stop] at hdecl
      rw [Binary64.lt_iff_signedUnits h'.stop h'.start]
      omega
    have hlt := h.declared_lt_of_edit he hempty hlt'
    refine ⟨hlt, (h.ordered_iff.1 hord).resolve_right fun hle => ?_, hempty⟩
    rw [Binary64.lt_iff_signedUnits h.stop h.start] at hlt
    rw [Binary64.le_iff_signedUnits h.start h.stop] at hle
    omega
  · rw [hs'] at hinv
    exact absurd hord hinv

/-- A start of 3 is written while a pulse from 5 to 10 covers a declared stop of 0; the same pulse
laid over it once more uncovers the inversion. -/
theorem startTime_le_stopTime_iff_covered :
    let pulse := Edit.addPulse 0 (.ofNat 5) (.ofNat 5)
    let s := [pulse, .setStart (.ofNat 3)].foldl Sequence.attempt
      ⟨[Channel.resting false], Binary64.zero, Binary64.zero⟩
    s.Reachable ∧ s.startTime ≤ s.stopTime ∧ (∃ c ∈ s.channels, c.switches ≠ []) ∧
      ¬ (s.attempt pulse).startTime ≤ (s.attempt pulse).stopTime ∧
      s.declaredStop < s.declaredStart ∧ ∀ c ∈ (s.attempt pulse).channels, c.switches = [] := by
  intro pulse s
  have hs : s.Reachable := .attempt _ (.attempt _ (.ofCount (n := 1) rfl))
  have hord : s.startTime ≤ s.stopTime := by decide +kernel
  have hinv : ¬ (s.attempt pulse).startTime ≤ (s.attempt pulse).stopTime := by decide +kernel
  obtain ⟨hdecl, hsw, hempty⟩ := (startTime_le_stopTime_iff hs).2 pulse hord hinv
  exact ⟨hs, hord, hsw, hinv, hdecl, hempty⟩

/-- A start written under the cover of a pulse lies after the declared stop once the pulse is
cancelled. -/
theorem startTime_gt_stopTime_after_cancelling :
    let pulse := Edit.addPulse 0 (.ofNat 5) (.ofNat 5)
    let s := [pulse, .setStart (.ofNat 3), pulse].foldl Sequence.attempt
      ⟨[Channel.resting false], Binary64.zero, Binary64.zero⟩
    s.Reachable ∧ s.startTime = .ofNat 3 ∧ s.stopTime = .ofNat 0 ∧ ¬ s.startTime ≤ s.stopTime := by
  refine ⟨.attempt _ (.attempt _ (.attempt _ (.ofCount (n := 1) rfl))), ?_⟩
  decide +kernel

end Sequence
end PulseSequencer
