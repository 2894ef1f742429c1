import PulseSequencer.Description.Basic
import PulseSequencer.Proofs.Encoding
import PulseSequencer.Proofs.Sequence.Invariant
import PulseSequencer.Proofs.Totality

/-!
From a description to words.

The declared ends of a sequence can come in the wrong order by edits, but not by building a
description: it declares a single time first, its pulses leave the declared ends alone, and only the
stop is moved after them, checked against a start that nothing moves any more (`build_spec`).  So
what is built always compiles or is too long (`compile_total`), and what compiles has words.
-/

namespace PulseSequencer
namespace Description

theorem channels_new {d : Description} {n : Nat} {s : Sequence} (h : d.channels n = .ok s) :
    ∃ m, Sequence.New m s := by
  unfold channels at h
  split at h
  · split at h
    · exact ⟨_, .withDefaults rfl h⟩
    · cases h
  · exact ⟨_, .withDefaults rfl h⟩
  · exact ⟨_, .ofCount h⟩

/-- A reachable sequence whose declared ends are in order. -/
structure Ready (s : Sequence) : Prop where
  reachable : s.Reachable
  declared : s.declaredStart ≤ s.declaredStop

theorem Ready.ordered {s : Sequence} (h : Ready s) : s.startTime ≤ s.stopTime :=
  h.reachable.wellFormed.ordered_iff.2 (.inr h.declared)

theorem ready_of_interval {s s' : Sequence} (hs : s.Reachable) {start : Binary64}
    (h : s.withInterval start none = .ok s') : Ready s' := by
  refine ⟨hs.edit (e := .interval start none) h, ?_⟩
  obtain ⟨hstart, -, -, -, -, rfl⟩ := Sequence.withInterval_eq_ok.1 h
  exact Binary64.le_refl hstart

theorem Ready.pulse {s s' : Sequence} (hs : Ready s) {p : Pulse}
    (h : s.edit p.toEdit = .ok s') : Ready s' := by
  refine ⟨hs.reachable.edit h, ?_⟩
  have hdecl := hs.declared
  cases p with
  | add i t0 duration =>
    obtain ⟨-, -, -, -, rfl⟩ := Sequence.addPulse_eq_ok.1 h
    exact hdecl
  | append i delay duration =>
    obtain ⟨-, -, c, -, -, rfl⟩ := Sequence.appendPulse_eq_ok.1 h
    exact hdecl
  | switch i t =>
    obtain ⟨-, -, rfl⟩ := Sequence.addSwitch_eq_ok.1 h
    exact hdecl

theorem Ready.pulses {pulses : List Pulse} {s s' : Sequence} (hs : Ready s)
    (h : pulses.foldlM (fun s p => s.edit p.toEdit) s = .ok s') : Ready s' :=
  Except.foldlM_keeps (fun hs hp => Ready.pulse hs hp) hs h

/-- Moving the stop keeps the effective ends in order: the start is that of the same switches. -/
theorem ordered_of_setStop {s s' : Sequence} (hs : s.WellFormed) {stop : Binary64}
    (h : s.setStop stop = .ok s') : s'.startTime ≤ s'.stopTime := by
  have hs' : s'.WellFormed := hs.edit (e := .setStop stop) h
  obtain ⟨hstop, -, hord, rfl⟩ := Sequence.setStop_eq_ok.1 h
  have hle : s.startTime ≤ stop := by
    rw [Binary64.lt_iff_signedUnits hstop hs.startTime_isFinite] at hord
    rw [Binary64.le_iff_signedUnits hs.startTime_isFinite hstop]
    omega
  exact Binary64.le_trans hle hs'.declaredStop_le_stopTime

/-- **What is built** is reachable by edits, and its effective ends are in order. -/
theorem build_spec {d : Description} {n : Nat} {s : Sequence} (h : d.build n = .ok s) :
    s.Reachable ∧ s.startTime ≤ s.stopTime := by
  simp only [build, Except.bind_eq_ok] at h
  obtain ⟨empty, hempty, started, hstarted, played, hplayed, h⟩ := h
  obtain ⟨m, hnew⟩ := channels_new hempty
  have hready := (ready_of_interval hnew.reachable hstarted).pulses hplayed
  split at h
  · rename_i stop _
    exact ⟨hready.reachable.edit (e := .setStop stop) h,
      ordered_of_setStop hready.reachable.wellFormed h⟩
  · obtain rfl := Except.pure_eq_ok.1 h
    exact ⟨hready.reachable, hready.ordered⟩

/-- **From a description to words.** Whatever it says, a description is refused as it is built, or
its sequence is in order and is refused as it is compiled, or it has a program and the program has
words; nothing else comes of it. -/
theorem words_or_invalid (d : Description) (n : Nat) {c : Compiler} (hc : c.Accepted) :
    (∃ e : ValidationError, d.build n = .error e) ∨
    ∃ s, d.build n = .ok s ∧ s.startTime ≤ s.stopTime ∧
      ((∃ e : ValidationError, c.compile s = .error (.invalid e)) ∨
        ∃ p words, c.compile s = .ok p ∧ c.InRange s p ∧ p.encode = .ok words) := by
  cases hb : d.build n with
  | error e => exact .inl ⟨e, rfl⟩
  | ok s =>
    obtain ⟨hs, hord⟩ := build_spec hb
    have hend := Compiler.startTime_le_declaredEnd hc hs.wellFormed fun _ => hord
    refine .inr ⟨s, rfl, hord, ?_⟩
    rcases Compiler.compile_total hc hs.wellFormed hend with ⟨p, hp⟩ | ⟨r, hr⟩
    · obtain ⟨words, hw⟩ := Compiler.exists_encode hp
      exact .inr ⟨p, words, hp, Compiler.inRange_of_compile hc.positive hs.wellFormed hp, hw⟩
    · exact .inl ⟨_, hr⟩

/-- A description that starts at `10^308` seconds, under a duration with which the declared end
overflows, still has words. -/
theorem words_or_invalid_overflow :
    let d : Description :=
      { defaults := some [false, true], startTime := .ofNat (10 ^ 308)
        pulses := [.append 0 Binary64.zero (.ofNat (10 ^ 300)), .switch 1 (.ofNat (10 ^ 308))] }
    let c : Compiler := ⟨.ofNat 1, some (.ofNat (10 ^ 308))⟩
    c.Accepted ∧ ∃ s p words, d.build 8 = .ok s ∧ s.startTime ≤ s.stopTime ∧
      c.declaredEnd s = .infinite false ∧ c.compile s = .ok p ∧ c.InRange s p ∧
      p.encode = .ok words := by
  intro d c
  have hc : c.Accepted := .withDuration
    (.ofClockPeriod (Compiler.ofClockPeriod_eq_ok.2 ⟨⟨by decide +kernel, by decide +kernel⟩, rfl⟩))
    (Compiler.withDuration_eq_ok.2 ⟨⟨by decide +kernel, by decide +kernel⟩, rfl⟩)
  refine ⟨hc, ?_⟩
  let s : Sequence := (d.pulses.map Pulse.toEdit).foldl Sequence.attempt
    ⟨[false, true].map Channel.resting, d.startTime, d.startTime⟩
  have hbuild : (d.build 8).toOption = some s := by decide +kernel
  have hcompile : ∃ p, c.compile s = .ok p :=
    Compiler.exists_compile_iff.2 (by decide +kernel)
  rcases words_or_invalid d 8 hc with ⟨e, he⟩ | ⟨s', hs', hord, hrest⟩
  · rw [he] at hbuild
    cases hbuild
  · rw [hs'] at hbuild
    cases hbuild
    rcases hrest with ⟨e, he⟩ | ⟨p, words, hp, hrange, hw⟩
    · obtain ⟨p, hp⟩ := hcompile
      rw [hp] at he
      cases he
    · exact ⟨s, p, words, hs', hord, by decide +kernel, hp, hrange, hw⟩

end Description
end PulseSequencer
