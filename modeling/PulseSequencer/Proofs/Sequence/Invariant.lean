import PulseSequencer.Proofs.Sequence.Interval

/-!
What a run of edits keeps.

A run starts from a new sequence and makes edits one after another; a rejected edit changes
nothing.  One edit keeps the number of channels (`nchannels_attempt`) and takes reachable sequences
to reachable ones, so a run does (`run_nchannels`, `run_reachable`).  With what every reachable
sequence is (`WellFormed.invariant`), that gives the invariant of all runs.
-/

namespace PulseSequencer
namespace Sequence

/-- A sequence of `n` channels as it is made, before any edit. -/
inductive New (n : Nat) : Sequence → Prop
  | withDefaults {defaults s} : defaults.length = n → withDefaults defaults = .ok s → New n s
  | ofCount {s} : ofCount n = .ok s → New n s

theorem New.reachable {n : Nat} {s : Sequence} (h : New n s) : s.Reachable := by
  cases h with
  | withDefaults _ h => exact .withDefaults h
  | ofCount h => exact .ofCount h

theorem New.nchannels_eq {n : Nat} {s : Sequence} (h : New n s) : s.nchannels = n := by
  cases h with
  | withDefaults hn h =>
    obtain ⟨-, rfl⟩ := withDefaults_eq_ok.1 h
    simpa [nchannels] using hn
  | ofCount h =>
    obtain ⟨-, rfl⟩ := ofCount_eq_ok.1 h
    simp [nchannels]

/-- The sequence after a run of edits, accepted or rejected. -/
def run (s : Sequence) (edits : List Edit) : Sequence := edits.foldl attempt s

/-! ## The number of channels -/

theorem nchannels_edit {s s' : Sequence} {e : Edit} (he : s.edit e = .ok s') :
    s'.nchannels = s.nchannels := by
  cases e with
  | interval start stop =>
    obtain ⟨-, -, -, -, -, rfl⟩ := withInterval_eq_ok.1 he
    rfl
  | setDefault i level =>
    obtain ⟨-, rfl⟩ := modifyChannel_eq_ok.1 he
    simp [nchannels]
  | switch i t =>
    obtain ⟨-, -, rfl⟩ := addSwitch_eq_ok.1 he
    simp [nchannels]
  | addPulse i t0 d =>
    obtain ⟨-, -, -, -, rfl⟩ := addPulse_eq_ok.1 he
    simp [nchannels]
  | appendPulse i delay d =>
    obtain ⟨-, -, c, -, -, rfl⟩ := appendPulse_eq_ok.1 he
    simp [nchannels]
  | setStart v =>
    obtain ⟨-, -, -, rfl⟩ := setStart_eq_ok.1 he
    rfl
  | setStop v =>
    obtain ⟨-, -, -, rfl⟩ := setStop_eq_ok.1 he
    rfl

theorem nchannels_attempt (s : Sequence) (e : Edit) : (s.attempt e).nchannels = s.nchannels := by
  rcases attempt_eq (s := s) (e := e) with ⟨s', he, hs'⟩ | hs'
  · rw [hs', nchannels_edit he]
  · rw [hs']

/-! ## Runs -/

theorem run_nchannels (s : Sequence) (edits : List Edit) :
    (s.run edits).nchannels = s.nchannels := by
  induction edits generalizing s with
  | nil => rfl
  | cons e edits ih =>
    calc (s.run (e :: edits)).nchannels = (s.attempt e).nchannels := ih (s.attempt e)
      _ = s.nchannels := nchannels_attempt s e

theorem run_reachable {s : Sequence} (h : s.Reachable) (edits : List Edit) :
    (s.run edits).Reachable := by
  induction edits generalizing s with
  | nil => exact h
  | cons e edits ih => exact ih (h.attempt e)

/-- What a sequence that was made with `n` channels is, whatever was done to it. -/
structure Invariant (n : Nat) (s : Sequence) : Prop where
  nchannels : s.nchannels = n
  width : 1 ≤ n ∧ n ≤ 24
  ascending : ∀ c ∈ s.channels, c.switches.Pairwise (· < ·)
  finite : ∀ c ∈ s.channels, ∀ t ∈ c.switches, t.isFinite = true
  start_finite : s.startTime.isFinite = true
  stop_finite : s.stopTime.isFinite = true
  /-- the effective interval covers every switch -/
  covers : ∀ c ∈ s.channels, ∀ t ∈ c.switches, s.startTime ≤ t ∧ t ≤ s.stopTime

theorem WellFormed.invariant {s : Sequence} (h : s.WellFormed) : Invariant s.nchannels s where
  nchannels := rfl
  width := h.width
  ascending c hc := (h.channels c hc).ascending
  finite _ hc _ ht := h.isFinite_of_mem hc ht
  start_finite := h.startTime_isFinite
  stop_finite := h.stopTime_isFinite
  covers _ hc _ ht := ⟨h.startTime_le hc ht, h.le_stopTime hc ht⟩

/-- **The invariant of all runs of edits.** -/
theorem invariant_of_run {n : Nat} {s : Sequence} (hs : New n s) (edits : List Edit) :
    Invariant n (s.run edits) := by
  have hn : (s.run edits).nchannels = n := by
    rw [run_nchannels, hs.nchannels_eq]
  have h := (run_reachable hs.reachable edits).wellFormed.invariant
  rwa [hn] at h

/-- Switches at the two zeros cancel, a pulse is appended twice, the second time onto the first, and
a start after the first switch is rejected. -/
theorem invariant_of_run_merged :
    let s : Sequence := ⟨[false, true].map Channel.resting, Binary64.zero, Binary64.zero⟩
    let edits := [Edit.switch 0 (.ofRatio true 0 1), .switch 0 Binary64.zero,
      .appendPulse 1 (.ofRatio false 1 10) (.ofRatio false 2 10),
      .appendPulse 1 Binary64.zero (.ofRatio false 3 10), .setStart (.ofNat 1)]
    New 2 s ∧ (s.run edits).channels.map (·.switches.length) = [0, 2] ∧
      Invariant 2 (s.run edits) := by
  intro s edits
  have hs : New 2 s := @New.withDefaults 2 [false, true] _ rfl rfl
  exact ⟨hs, by decide +kernel, invariant_of_run hs edits⟩

end Sequence
end PulseSequencer
