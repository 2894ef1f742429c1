import PulseSequencer.Proofs.Sequence.Bounds

/-!
Sequences by value.

Sequences are equal if their effective ends lie at the same positions and their channels have the
same views (`WellFormed.equal_iff`).  Sequences that declare the same ends and whose channels have
the same views are alike: then the effective ends agree, so they are equal (`Alike.equal`), and a
new stop is accepted by both or by neither (`Alike.setStop`).
-/

namespace PulseSequencer
namespace Sequence

open Binary64 (position)

theorem WellFormed.numbers {s : Sequence} (h : s.WellFormed) {c : Channel} (hc : c ∈ s.channels) :
    ∀ t ∈ c.switches, t.isNaN = false := (h.channels c hc).ordered.number

/-- **Equal sequences**: the effective ends and the switches lie at the same positions. -/
theorem WellFormed.equal_iff {a b : Sequence} (ha : a.WellFormed) (hb : b.WellFormed) :
    a.equal b = true ↔ a.startTime.position = b.startTime.position ∧
      a.stopTime.position = b.stopTime.position ∧
      a.channels.map Channel.view = b.channels.map Channel.view := by
  have hchannels := Channel.zip_all_iff (e := Channel.equal) (f := Channel.view)
    fun c hc d hd => Channel.equal_iff (ha.numbers hc) (hb.numbers hd)
  simp only [equal, Bool.and_eq_true, beq_iff_eq, and_assoc, hchannels, Binary64.equal_iff,
    Binary64.isNaN_of_isFinite ha.startTime_isFinite,
    Binary64.isNaN_of_isFinite hb.startTime_isFinite,
    Binary64.isNaN_of_isFinite ha.stopTime_isFinite,
    Binary64.isNaN_of_isFinite hb.stopTime_isFinite, true_and]

/-- The same declared ends, and channels with the same views. -/
structure Alike (a b : Sequence) : Prop where
  start : a.declaredStart = b.declaredStart
  stop : a.declaredStop = b.declaredStop
  views : a.channels.map Channel.view = b.channels.map Channel.view

theorem Alike.symm {a b : Sequence} (h : Alike a b) : Alike b a :=
  ⟨h.start.symm, h.stop.symm, h.views.symm⟩

theorem Alike.exists_switch {a b : Sequence} (h : Alike a b) {c : Channel} (hc : c ∈ b.channels)
    {t : Binary64} (ht : t ∈ c.switches) :
    ∃ d ∈ a.channels, ∃ u ∈ d.switches, u.position = t.position := by
  have hview : c.view ∈ a.channels.map Channel.view := h.views ▸ List.mem_map_of_mem hc
  obtain ⟨d, hd, hdc⟩ := List.mem_map.1 hview
  have hpos : t.position ∈ d.switches.map position := by
    rw [show d.switches.map position = c.switches.map position from congrArg Prod.snd hdc]
    exact List.mem_map_of_mem ht
  obtain ⟨u, hu, hut⟩ := List.mem_map.1 hpos
  exact ⟨d, hd, u, hu, hut⟩

section
variable {a b : Sequence} (ha : a.WellFormed) (hb : b.WellFormed) (h : Alike a b)
include ha hb h

theorem Alike.startTime_le : a.startTime ≤ b.startTime := by
  refine (hb.le_startTime_iff ha.startTime_isFinite).2 ⟨?_, fun c hc t ht => ?_⟩
  · rw [← h.start]
    exact ha.startTime_le_declaredStart
  · obtain ⟨d, hd, u, hu, hut⟩ := h.exists_switch hc ht
    obtain ⟨hn, -, hle⟩ := Binary64.le_iff.1 (ha.startTime_le hd hu)
    exact Binary64.le_iff.2 ⟨hn, hb.numbers hc t ht, hut ▸ hle⟩

theorem Alike.stopTime_le : a.stopTime ≤ b.stopTime := by
  refine (ha.stopTime_le_iff hb.stopTime_isFinite).2 ⟨?_, fun c hc t ht => ?_⟩
  · rw [h.stop]
    exact hb.declaredStop_le_stopTime
  · obtain ⟨d, hd, u, hu, hut⟩ := h.symm.exists_switch hc ht
    obtain ⟨-, hn, hle⟩ := Binary64.le_iff.1 (hb.le_stopTime hd hu)
    exact Binary64.le_iff.2 ⟨ha.numbers hc t ht, hn, hut ▸ hle⟩

theorem Alike.startTime_position : a.startTime.position = b.startTime.position :=
  Int.le_antisymm (Binary64.le_iff.1 (h.startTime_le ha hb)).2.2
    (Binary64.le_iff.1 (h.symm.startTime_le hb ha)).2.2

theorem Alike.stopTime_position : a.stopTime.position = b.stopTime.position :=
  Int.le_antisymm (Binary64.le_iff.1 (h.stopTime_le ha hb)).2.2
    (Binary64.le_iff.1 (h.symm.stopTime_le hb ha)).2.2

/-- **Sequences that are alike are equal.** -/
theorem Alike.equal : a.equal b = true :=
  (ha.equal_iff hb).2 ⟨h.startTime_position ha hb, h.stopTime_position ha hb, h.views⟩

/-- **A new stop** that the one accepts is accepted by the other, and they stay alike. -/
theorem Alike.setStop {v : Binary64} {a' : Sequence} (hok : a.setStop v = .ok a') :
    ∃ b', b.setStop v = .ok b' ∧ Alike a' b' := by
  obtain ⟨hv, hkept, hstart, rfl⟩ := (ha.setBound_eq_ok (b := .stop)).1 hok
  refine ⟨_, (hb.setBound_eq_ok (b := .stop)).2 ⟨hv, fun c hc t ht => ?_, ?_, rfl⟩,
    h.start, rfl, h.views⟩
  · obtain ⟨d, hd, u, hu, hut⟩ := h.exists_switch hc ht
    obtain ⟨-, hvn, hpos⟩ := Binary64.le_iff.1 (hkept d hd u hu)
    exact Binary64.le_iff.2 ⟨hb.numbers hc t ht, hvn, hut ▸ hpos⟩
  · exact Binary64.le_trans (h.symm.startTime_le hb ha) hstart

end

end Sequence
end PulseSequencer
