import PulseSequencer.Proofs.Description
import PulseSequencer.Proofs.Sequence.Switches

/-!
The order of the entries of a description.

An entry that is not appended says by itself which switches it adds (`edges`), and whether it is
accepted depends on nothing but the number of channels (`edit_eq_ok_iff`).  So the order of a run of
such entries does not show (`exists_run_of_perm`), and neither does that of the entries of a
description: `build_perm`.
-/

namespace PulseSequencer

namespace Pulse

/-- An entry that gives its times itself, and does not count from the last switch. -/
def Fixed (p : Pulse) : Prop := ∀ i delay duration, p ≠ .append i delay duration

/-- The switches that an entry adds, with the numbers of their channels.  Those of an appended pulse
are not known before the sequence is. -/
def edges : Pulse → List (Nat × Binary64)
  | .add i t0 duration => [(i, t0), (i, t0 + duration)]
  | .append .. => []
  | .switch i t => [(i, t)]

/-- An entry passes the checks for a sequence of `n` channels. -/
def Acceptable (n : Nat) : Pulse → Prop
  | .add i t0 duration =>
    t0.isFinite = true ∧ (duration.isFinite = true ∧ ¬ duration ≤ Binary64.zero) ∧
      (t0 + duration).isFinite = true ∧ i < n
  | .append .. => False
  | .switch i t => t.isFinite = true ∧ i < n

theorem Acceptable.finite {n : Nat} {p : Pulse} (h : p.Acceptable n) :
    ∀ e ∈ p.edges, e.2.isFinite = true := by
  cases p with
  | add i t0 duration =>
    obtain ⟨h0, -, h1, -⟩ := h
    simp [edges, h0, h1]
  | append => simp [edges]
  | switch i t => simp [edges, h.1]

/-- **An entry with its own times** is checked by itself and adds its switches. -/
theorem edit_eq_ok_iff {p : Pulse} (hp : p.Fixed) {s s' : Sequence} :
    s.edit p.toEdit = .ok s' ↔
      p.Acceptable s.nchannels ∧ s' = p.edges.foldl Sequence.switched s := by
  cases p with
  | add i t0 duration =>
    rw [show s.edit (toEdit (.add i t0 duration)) = s.addPulse i t0 duration from rfl,
      Sequence.addPulse_eq_ok]
    simp only [Acceptable, edges, and_assoc, List.foldl_cons, List.foldl_nil, Sequence.switched,
      List.modify_modify_eq]
    rfl
  | append i delay duration => exact absurd rfl (hp i delay duration)
  | switch i t =>
    rw [show s.edit (toEdit (.switch i t)) = s.addSwitch i t from rfl, Sequence.addSwitch_eq_ok]
    simp only [Acceptable, edges, and_assoc, List.foldl_cons, List.foldl_nil, Sequence.switched]

/-- **The order of a run of entries with their own times** does not matter. -/
theorem exists_run_of_perm {pulses pulses' : List Pulse} (hfixed : ∀ p ∈ pulses, p.Fixed)
    (hperm : pulses.Perm pulses') {s s' : Sequence} (hs : s.WellFormed)
    (h : pulses.foldlM (fun s p => s.edit p.toEdit) s = .ok s') :
    ∃ s'', pulses'.foldlM (fun s p => s.edit p.toEdit) s = .ok s'' ∧ Sequence.Alike s' s'' :=
  Sequence.exists_foldlM_of_perm (fun p hp _ _ => edit_eq_ok_iff (hfixed p hp))
    (fun _ _ _ hacc => hacc.finite) hperm hs h

end Pulse

namespace Description

theorem exists_build_of_perm {d : Description} (hfixed : ∀ p ∈ d.pulses, p.Fixed)
    {pulses : List Pulse} (hperm : d.pulses.Perm pulses) {n : Nat} {s : Sequence}
    (h : d.build n = .ok s) :
    ∃ s', build { d with pulses := pulses } n = .ok s' ∧ s.equal s' = true := by
  simp only [build, Except.bind_eq_ok] at h
  obtain ⟨empty, hempty, started, hstarted, played, hplayed, hstop⟩ := h
  obtain ⟨m, hnew⟩ := channels_new hempty
  have hready := ready_of_interval hnew.reachable hstarted
  obtain ⟨played', hplayed', halike⟩ :=
    Pulse.exists_run_of_perm hfixed hperm hready.reachable.wellFormed hplayed
  have hw := (hready.pulses hplayed).reachable.wellFormed
  have hw' := (hready.pulses hplayed').reachable.wellFormed
  cases hd : d.stopTime with
  | none =>
    rw [hd] at hstop
    obtain rfl := Except.pure_eq_ok.1 hstop
    refine ⟨_, ?_, halike.equal hw hw'⟩
    simp only [build, Except.bind_eq_ok]
    exact ⟨empty, hempty, started, hstarted, _, hplayed', Except.pure_eq_ok.2 rfl⟩
  | some stop =>
    rw [hd] at hstop
    obtain ⟨s', hstop', halike'⟩ := halike.setStop hw hw' hstop
    refine ⟨s', ?_, halike'.equal (hw.edit (e := .setStop stop) hstop)
      (hw'.edit (e := .setStop stop) hstop')⟩
    simp only [build, Except.bind_eq_ok]
    exact ⟨empty, hempty, started, hstarted, _, hplayed', hstop'⟩

/-- **The order of entries does not matter** where none is appended: both orders are refused, or
both give the same sequence. -/
theorem build_perm {d : Description}
    (hfixed : ∀ p ∈ d.pulses, ∀ i delay duration, p ≠ .append i delay duration)
    {pulses : List Pulse} (hperm : d.pulses.Perm pulses) (n : Nat) :
    (∃ s s', d.build n = .ok s ∧ build { d with pulses := pulses } n = .ok s' ∧
      s.equal s' = true) ∨
    ∃ e e', d.build n = .error e ∧ build { d with pulses := pulses } n = .error e' := by
  cases h : d.build n with
  | ok s =>
    obtain ⟨s', hs', heq⟩ := exists_build_of_perm hfixed hperm h
    exact .inl ⟨s, s', rfl, hs', heq⟩
  | error e =>
    cases h' : build { d with pulses := pulses } n with
    | error e' => exact .inr ⟨e, e', rfl, rfl⟩
    | ok s' =>
      have hfixed' : ∀ p ∈ pulses, p.Fixed := fun p hp => hfixed p (hperm.mem_iff.2 hp)
      obtain ⟨s, hs, -⟩ := exists_build_of_perm hfixed' hperm.symm h'
      rw [h] at hs
      cases hs

/-- Switches at the two zeros cancel in pairs; which of the zeros is left over depends on the order
of the entries, and the sequences are equal all the same. -/
theorem build_perm_zeros :
    let plus := Pulse.switch 0 Binary64.zero
    let minus := Pulse.switch 0 (.ofRatio true 0 1)
    let late := Pulse.add 0 (.ofNat 1) (.ofNat 2)
    let d : Description :=
      { nchannels := some 1, stopTime := some (.ofNat 4), pulses := [plus, late, minus, plus] }
    let d' := { d with pulses := [plus, plus, minus, late] }
    ∃ s s', d.build 8 = .ok s ∧ d'.build 8 = .ok s' ∧ s ≠ s' ∧ s.equal s' = true := by
  intro plus minus late d d'
  have hfixed : ∀ p ∈ d.pulses, ∀ i delay duration, p ≠ .append i delay duration := by
    simp [d, plus, minus, late]
  have hperm : d.pulses.Perm [plus, plus, minus, late] := by decide +kernel
  have hdiff : (d.build 8).toOption ≠ (d'.build 8).toOption := by decide +kernel
  have hok : (d.build 8).toOption ≠ none := by decide +kernel
  rcases build_perm hfixed hperm 8 with ⟨s, s', hs, hs', heq⟩ | ⟨e, e', he, -⟩
  · refine ⟨s, s', hs, hs', fun h => hdiff ?_, heq⟩
    rw [hs, show d'.build 8 = .ok s' from hs', h]
  · rw [he] at hok
    exact absurd rfl hok

end Description
end PulseSequencer
