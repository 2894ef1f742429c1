import PulseSequencer.Proofs.Channel
import PulseSequencer.Proofs.Sequence.Edits

/-!
The sequences that edits can make.

A sequence is reachable if it comes from a new one by any run of edits, accepted or rejected.  All
of them are well formed (`Reachable.wellFormed`): one to 24 channels, finite and strictly ascending
switches on each channel, finite declared ends.  An appended pulse checks only its back edge, so
that its front edge is finite has to be concluded from the sum.
-/

namespace PulseSequencer

theorem Binary64.isFinite_of_add {a b : Binary64} (hb : b.isFinite = true)
    (h : (a + b).isFinite = true) : a.isFinite = true := by
  cases a with
  | finite => rfl
  | nan =>
    have hsum : Binary64.nan + b = .nan := rfl
    simp [hsum, Binary64.isFinite] at h
  | infinite s =>
    cases b with
    | nan | infinite t => simp [Binary64.isFinite] at hb
    | finite t units below fits =>
      have hsum : Binary64.infinite s + .finite t units below fits = .infinite s := rfl
      simp [hsum, Binary64.isFinite] at h

namespace Sequence

structure WellFormed (s : Sequence) : Prop where
  width : 0 < s.nchannels ∧ s.nchannels ≤ Validation.maxChannels
  channels : ∀ c ∈ s.channels, c.WellFormed
  start : s.declaredStart.isFinite = true
  stop : s.declaredStop.isFinite = true

/-- The sequences that come from a new one by a run of edits, accepted or rejected. -/
inductive Reachable : Sequence → Prop
  | withDefaults {defaults s} : withDefaults defaults = .ok s → Reachable s
  | ofCount {n s} : ofCount n = .ok s → Reachable s
  | attempt {s} (e : Edit) : Reachable s → Reachable (s.attempt e)

theorem zero_isFinite : Binary64.zero.isFinite = true := by decide +kernel

theorem WellFormed.modify {s : Sequence} (h : s.WellFormed) {i : Nat} {f : Channel → Channel}
    (hf : ∀ c : Channel, c.WellFormed → (f c).WellFormed) :
    WellFormed { s with channels := s.channels.modify i f } := by
  refine ⟨by simpa [nchannels] using h.width, fun c hc => ?_, h.start, h.stop⟩
  obtain ⟨j, hj⟩ := List.mem_iff_getElem?.1 hc
  rw [List.getElem?_modify] at hj
  obtain ⟨c', hc', hfc⟩ := Option.map_eq_some_iff.1 hj
  have hw := h.channels c' (List.mem_of_getElem? hc')
  split at hfc
  · rw [← hfc]; exact hf c' hw
  · rw [← hfc]; exact hw

theorem WellFormed.edit {s s' : Sequence} (h : s.WellFormed) {e : Edit} (he : s.edit e = .ok s') :
    s'.WellFormed := by
  cases e with
  | interval start stop =>
    obtain ⟨h1, h2, -, -, -, rfl⟩ := withInterval_eq_ok.1 he
    exact ⟨h.width, h.channels, h1, h2⟩
  | setDefault i level =>
    obtain ⟨-, rfl⟩ := modifyChannel_eq_ok.1 he
    exact h.modify fun c hc => hc.withDefault level
  | switch i t =>
    obtain ⟨ht, -, rfl⟩ := addSwitch_eq_ok.1 he
    exact h.modify fun c hc => hc.addSwitch ht
  | addPulse i t0 d =>
    obtain ⟨h0, -, h1, -, rfl⟩ := addPulse_eq_ok.1 he
    exact h.modify fun c hc => (hc.addSwitch h0).addSwitch h1
  | appendPulse i delay d =>
    obtain ⟨-, ⟨hd, -⟩, c, -, h1, rfl⟩ := appendPulse_eq_ok.1 he
    -- Only the back edge is checked; the front edge could not be infinite before a finite sum.
    have h0 := Binary64.isFinite_of_add hd h1
    exact h.modify fun c hc => (hc.addSwitch h0).addSwitch h1
  | setStart v =>
    obtain ⟨hv, -, -, rfl⟩ := setStart_eq_ok.1 he
    exact ⟨h.width, h.channels, hv, h.stop⟩
  | setStop v =>
    obtain ⟨hv, -, -, rfl⟩ := setStop_eq_ok.1 he
    exact ⟨h.width, h.channels, h.start, hv⟩

theorem attempt_eq {s : Sequence} {e : Edit} :
    (∃ s', s.edit e = .ok s' ∧ s.attempt e = s') ∨ s.attempt e = s := by
  unfold Sequence.attempt
  split
  · rename_i s' h; exact .inl ⟨s', h, rfl⟩
  · exact .inr rfl

theorem Reachable.edit {s s' : Sequence} (h : s.Reachable) {e : Edit} (he : s.edit e = .ok s') :
    s'.Reachable := by
  have hs' : s.attempt e = s' := by
    unfold Sequence.attempt
    rw [he]
  exact hs' ▸ h.attempt e

/-- **Every reachable sequence is well formed.** -/
theorem Reachable.wellFormed {s : Sequence} (h : s.Reachable) : s.WellFormed := by
  induction h with
  | withDefaults h =>
    obtain ⟨hn, rfl⟩ := withDefaults_eq_ok.1 h
    refine ⟨by simpa [nchannels] using hn, fun c hc => ?_, zero_isFinite, zero_isFinite⟩
    obtain ⟨level, -, rfl⟩ := List.mem_map.1 hc
    exact .resting level
  | ofCount h =>
    obtain ⟨hn, rfl⟩ := ofCount_eq_ok.1 h
    refine ⟨by simpa [nchannels] using hn, fun c hc => ?_, zero_isFinite, zero_isFinite⟩
    rw [List.eq_of_mem_replicate hc]
    exact .resting false
  | attempt e _ ih =>
    rcases attempt_eq (e := e) with ⟨s', he, hs⟩ | hs
    · rw [hs]; exact ih.edit he
    · rw [hs]; exact ih

end Sequence
end PulseSequencer
