import PulseSequencer.Proofs.Validation
import PulseSequencer.Sequence

/-!
When an edit is accepted, and what it makes of a sequence.

One lemma for each edit: it succeeds exactly when its values pass the checks, and then the new
sequence differs from the old one in a single place, the declared interval or one channel.
-/

namespace PulseSequencer

namespace Sequence

/-! ## New sequences -/

theorem withDefaults_eq_ok {defaults : List Bool} {s : Sequence} :
    withDefaults defaults = .ok s ↔
      (0 < defaults.length ∧ defaults.length ≤ Validation.maxChannels) ∧
      s = ⟨defaults.map Channel.resting, Binary64.zero, Binary64.zero⟩ := by
  simp only [withDefaults, Except.bind_eq_ok, Except.pure_eq_ok, Validation.channelCount_eq_ok]
  simp

theorem ofCount_eq_ok {n : Nat} {s : Sequence} :
    ofCount n = .ok s ↔ (0 < n ∧ n ≤ Validation.maxChannels) ∧
      s = ⟨List.replicate n (Channel.resting false), Binary64.zero, Binary64.zero⟩ := by
  simp only [ofCount, Except.bind_eq_ok, Except.pure_eq_ok, Validation.channelCount_eq_ok]
  simp

/-! ## Edits of the declared interval -/

/-- A bound at `v` does not cut off the outermost switch of a channel. -/
def Admits (bound : Bound) (v : Binary64) (c : Channel) : Prop :=
  match bound with
  | .start => ∀ t, c.firstSwitch? = some t → ¬ t < v
  | .stop => ∀ t, c.lastSwitch? = some t → ¬ v < t

theorem checkBound_eq_ok {s : Sequence} {bound : Bound} {v : Binary64} {u : Unit} :
    s.checkBound bound v = .ok u ↔ ∀ c ∈ s.channels, Admits bound v c := by
  have h : s.checkBound bound v = .ok u ↔ s.clipped? bound v = none := by
    unfold checkBound
    split <;> simp_all
  rw [h, clipped?, List.findSome?_eq_none_iff]
  constructor
  · intro h c hmem
    obtain ⟨i, hi, rfl⟩ := List.getElem_of_mem hmem
    have hout := h (s.channels[i], i) (List.mem_zipIdx_iff_getElem?.2 (by simp [hi]))
    cases bound <;> simpa [Admits, Option.filter_eq_none_iff] using hout
  · rintro h ⟨c, i⟩ hi
    have hin := h c (List.mem_of_getElem? (List.mem_zipIdx_iff_getElem?.1 hi))
    cases bound <;> simpa [Admits, Option.filter_eq_none_iff] using hin

theorem withInterval_eq_ok {s s' : Sequence} {start : Binary64} {stop? : Option Binary64} :
    s.withInterval start stop? = .ok s' ↔
      start.isFinite = true ∧ (stop?.getD start).isFinite = true ∧ ¬ stop?.getD start < start ∧
      (∀ c ∈ s.channels, Admits .start start c) ∧
      (∀ c ∈ s.channels, Admits .stop (stop?.getD start) c) ∧
      s' = { s with declaredStart := start, declaredStop := stop?.getD start } := by
  simp only [withInterval, Except.bind_eq_ok, Except.stop_eq_ok, Except.pure_eq_ok,
    Validation.time_eq_ok, checkBound_eq_ok]
  constructor
  · rintro ⟨-, h1, -, h2, h3, -, h4, -, h5, h6⟩
    exact ⟨h1, h2, h3, h4, h5, h6⟩
  · rintro ⟨h1, h2, h3, h4, h5, h6⟩
    exact ⟨(), h1, (), h2, h3, (), h4, (), h5, h6⟩

theorem setStart_eq_ok {s s' : Sequence} {v : Binary64} :
    s.setStart v = .ok s' ↔ v.isFinite = true ∧ (∀ c ∈ s.channels, Admits .start v c) ∧
      ¬ s.stopTime < v ∧ s' = { s with declaredStart := v } := by
  simp only [setStart, Except.bind_eq_ok, Except.stop_eq_ok, Except.pure_eq_ok,
    Validation.time_eq_ok, checkBound_eq_ok]
  constructor
  · rintro ⟨-, h1, -, h2, h3, h4⟩
    exact ⟨h1, h2, h3, h4⟩
  · rintro ⟨h1, h2, h3, h4⟩
    exact ⟨(), h1, (), h2, h3, h4⟩

theorem setStop_eq_ok {s s' : Sequence} {v : Binary64} :
    s.setStop v = .ok s' ↔ v.isFinite = true ∧ (∀ c ∈ s.channels, Admits .stop v c) ∧
      ¬ v < s.startTime ∧ s' = { s with declaredStop := v } := by
  simp only [setStop, Except.bind_eq_ok, Except.stop_eq_ok, Except.pure_eq_ok,
    Validation.time_eq_ok, checkBound_eq_ok]
  constructor
  · rintro ⟨-, h1, -, h2, h3, h4⟩
    exact ⟨h1, h2, h3, h4⟩
  · rintro ⟨h1, h2, h3, h4⟩
    exact ⟨(), h1, (), h2, h3, h4⟩

/-! ## Edits of one channel -/

theorem modifyChannel_eq_ok {s s' : Sequence} {i : Nat} {f : Channel → Channel} :
    s.modifyChannel i f = .ok s' ↔
      i < s.nchannels ∧ s' = { s with channels := s.channels.modify i f } := by
  simp only [modifyChannel, Except.bind_eq_ok, Except.pure_eq_ok, Validation.channel_eq_ok]
  simp

theorem addSwitch_eq_ok {s s' : Sequence} {i : Nat} {t : Binary64} :
    s.addSwitch i t = .ok s' ↔ t.isFinite = true ∧ i < s.nchannels ∧
      s' = { s with channels := s.channels.modify i (·.addSwitch t) } := by
  simp only [addSwitch, Except.bind_eq_ok, Validation.time_eq_ok, modifyChannel_eq_ok]
  simp

theorem addPulse_eq_ok {s s' : Sequence} {i : Nat} {t0 d : Binary64} :
    s.addPulse i t0 d = .ok s' ↔
      t0.isFinite = true ∧ (d.isFinite = true ∧ ¬ d ≤ Binary64.zero) ∧
      (t0 + d).isFinite = true ∧ i < s.nchannels ∧
      s' = { s with
        channels := s.channels.modify i fun c => (c.addSwitch t0).addSwitch (t0 + d) } := by
  simp only [addPulse, Except.bind_eq_ok, Validation.time_eq_ok, Validation.duration_eq_ok,
    modifyChannel_eq_ok]
  simp

theorem channel_eq_ok {s : Sequence} {i : Nat} {c : Channel} :
    s.channel i = .ok c ↔ s.channels[i]? = some c := by
  unfold channel
  split <;> simp_all

theorem appendPulse_eq_ok {s s' : Sequence} {i : Nat} {delay d : Binary64} :
    s.appendPulse i delay d = .ok s' ↔
      (delay.isFinite = true ∧ ¬ delay < Binary64.zero) ∧
      (d.isFinite = true ∧ ¬ d ≤ Binary64.zero) ∧
      ∃ c, s.channels[i]? = some c ∧ (s.anchor c + delay + d).isFinite = true ∧
        s' = { s with
          channels := s.channels.modify i fun c' =>
            (c'.addSwitch (s.anchor c + delay)).addSwitch (s.anchor c + delay + d) } := by
  simp only [appendPulse, Except.bind_eq_ok, Validation.time_eq_ok, Validation.duration_eq_ok,
    Validation.delay_eq_ok, channel_eq_ok, modifyChannel_eq_ok]
  constructor
  · rintro ⟨-, h1, -, h2, c, hc, -, h3, -, h4⟩
    exact ⟨h1, h2, c, hc, h3, h4⟩
  · rintro ⟨h1, h2, c, hc, h3, h4⟩
    exact ⟨(), h1, (), h2, c, hc, (), h3, (List.getElem?_eq_some_iff.1 hc).1, h4⟩

end Sequence
end PulseSequencer
