import PulseSequencer.Proofs.Sequence.Overlay

/-!
Pulses at the end of a channel.

An appended pulse is laid over a channel with its front edge no earlier than the last switch, since
adding a delay leads no further back (`Binary64.le_add`).  So its edges come after all switches
(`switches_addPulse_after`), but for a front edge that meets the last switch: then that switch goes,
and the pulse joins what was before it (`switches_addPulse_onto`).  Either way the past keeps its
levels and the future gets back the level it had (`appendPulse_extends`).
-/

namespace PulseSequencer
namespace Channel

/-! ## The end of a channel -/

/-- The level after the last switch. -/
def trailing (c : Channel) : Bool := c.states.getLast?.getD c.default

theorem trailing_eq (c : Channel) : c.trailing = (c.default ^^ c.switches.length % 2 == 1) := by
  unfold trailing states
  rcases Nat.eq_zero_or_pos c.switches.length with h | h
  · simp [h]
  · obtain ⟨n, hn⟩ := Nat.exists_eq_succ_of_ne_zero (Nat.ne_of_gt h)
    rw [hn, Nat.succ_eq_add_one, List.range_succ, List.map_append, List.map_singleton,
      List.getLast?_concat, Option.getD_some, odd_add]
    rcases Nat.mod_two_eq_zero_or_one n with hm | hm <;> simp [hm]

/-- **A time after all switches** has the trailing level. -/
theorem state_of_after {c : Channel} (hc : Ordered c.switches) {q : Binary64}
    (h : ∀ t ∈ c.switches, t < q) : c.state q = c.trailing := by
  have hall : (c.switches.countP fun s => decide (s < q)) = c.switches.length :=
    List.countP_eq_length.2 fun t ht => decide_eq_true (h t ht)
  rw [hc.state_eq, hall, trailing_eq]

theorem toggle_append {t : Binary64} : ∀ {l : List Binary64}, (∀ s ∈ l, s < t) →
    ∀ l', toggle t (l ++ l') = l ++ toggle t l'
  | [], _, _ => rfl
  | s :: l, h, l' => by
    obtain ⟨hs, hl⟩ := List.forall_mem_cons.1 h
    rw [List.cons_append, toggle, if_pos hs, toggle_append hl, List.cons_append]

theorem toggle_of_after {t : Binary64} {l : List Binary64} (h : ∀ s ∈ l, s < t) :
    toggle t l = l ++ [t] := by
  simpa [toggle] using toggle_append h []

theorem switches_addPulse_after {c : Channel} {t0 t1 : Binary64} (h : ∀ s ∈ c.switches, s < t0)
    (hlt : t0 < t1) : (c.addPulse t0 t1).switches = c.switches ++ [t0, t1] := by
  have hback : ∀ s ∈ c.switches ++ [t0], s < t1 := by
    intro s hs
    rcases List.mem_append.1 hs with hs | hs
    · exact Binary64.lt_of_lt_of_le (h s hs) (Binary64.le_of_lt hlt)
    · rw [List.mem_singleton.1 hs]
      exact hlt
  rw [addPulse, addSwitch, addSwitch, toggle_of_after h, toggle_of_after hback, List.append_assoc]
  rfl

theorem switches_addPulse_onto {c : Channel} {t0 t1 last : Binary64} {before : List Binary64}
    (hc : c.switches = before ++ [last]) (h : ∀ s ∈ before, s < t0) (heq : t0.equal last = true)
    (hlt : t0 < t1) : (c.addPulse t0 t1).switches = before ++ [t1] := by
  obtain ⟨h0, hlast, hpos⟩ := Binary64.equal_iff.1 heq
  have hgone : toggle t0 [last] = [] := by
    rw [toggle_cons hlast h0, if_neg (by omega), if_pos hpos.symm]
  have hback : ∀ s ∈ before, s < t1 := fun s hs =>
    Binary64.lt_of_lt_of_le (h s hs) (Binary64.le_of_lt hlt)
  rw [addPulse, addSwitch, addSwitch, hc, toggle_append h, hgone, List.append_nil,
    toggle_of_after hback]

theorem view_addPulse_of_equal {c : Channel} (h : Ordered c.switches) {t0 t1 : Binary64}
    (heq : t1.equal t0 = true) : (c.addPulse t0 t1).view = c.view := by
  obtain ⟨h1, h0, hpos⟩ := Binary64.equal_iff.1 heq
  have hnum : ∀ t ∈ [t0, t1], t.isNaN = false := by simp [h0, h1]
  refine view_foldl_of_even hnum (fun v => ?_) h
  simp only [List.countP_cons, List.countP_nil, hpos]
  omega

/-- What a pulse from `t0` to `t1` does to a channel whose last switch, or else the start of its
sequence, is at `a`. -/
structure Extends (a t0 t1 : Binary64) (c c' : Channel) : Prop where
  front : a ≤ t0
  back : t0 ≤ t1
  finite : t0.isFinite = true ∧ t1.isFinite = true
  /-- the pulse stands by itself -/
  apart : t0 < t1 → a < t0 ∨ c.switches = [] → c'.switches = c.switches ++ [t0, t1]
  /-- the pulse goes on from the last switch -/
  joined : t0 < t1 → t0.equal a = true → c.switches ≠ [] →
    c'.switches = c.switches.dropLast ++ [t1]
  /-- the duration is lost in rounding -/
  lost : t1.equal t0 = true → c'.equal c = true
  before : ∀ q, q ≤ t0 → c'.state q = c.state q
  inside : ∀ q, t0 < q → q ≤ t1 → c'.state q = !c.trailing
  after : ∀ q, t1 < q → c'.state q = c.trailing

section
variable {c : Channel} (h : c.WellFormed) {a : Binary64}
  (hlast : ∀ t, c.lastSwitch? = some t → t = a)
include h hlast

theorem WellFormed.le_of_last {t : Binary64} (ht : t ∈ c.switches) : t ≤ a := by
  cases hl : c.lastSwitch? with
  | none =>
    have : c.switches = [] := List.getLast?_eq_none_iff.1 hl
    simp [this] at ht
  | some last => exact hlast last hl ▸ h.le_last hl ht

/-- **A pulse no earlier than the last switch** extends a channel. -/
theorem WellFormed.extends_addPulse {t0 t1 : Binary64} (hfront : a ≤ t0) (hback : t0 ≤ t1)
    (h0 : t0.isFinite = true) (h1 : t1.isFinite = true) :
    Extends a t0 t1 c (c.addPulse t0 t1) where
  front := hfront
  back := hback
  finite := ⟨h0, h1⟩
  apart := by
    rintro hlt (hgap | hempty)
    · exact switches_addPulse_after
        (fun s hs => Binary64.lt_of_le_of_lt (h.le_of_last hlast hs) hgap) hlt
    · exact switches_addPulse_after (by simp [hempty]) hlt
  joined := by
    intro hlt heq hne
    have hsplit := (List.dropLast_concat_getLast hne).symm
    have hend : c.switches.getLast hne = a := hlast _ (List.getLast?_eq_some_getLast hne)
    have hasc := h.ascending
    rw [hsplit] at hasc
    have hbefore : ∀ s ∈ c.switches.dropLast, s < t0 := by
      intro s hs
      have hslast := (List.pairwise_append.1 hasc).2.2 s hs _ List.mem_cons_self
      exact Binary64.lt_of_lt_of_le (hend ▸ hslast) hfront
    exact switches_addPulse_onto hsplit hbefore (hend.symm ▸ heq) hlt
  lost := by
    intro heq
    have hpulse := (h.addSwitch h0).addSwitch h1
    exact (equal_iff hpulse.ordered.number h.ordered.number).2
      (view_addPulse_of_equal h.ordered heq)
  before := by
    intro q hq
    have hout : ¬ (t0 < q ∧ q ≤ t1) := fun hin => Binary64.not_le_of_lt hin.1 hq
    rw [state_addPulse h.ordered hback, decide_eq_false hout, Bool.xor_false]
  inside := by
    intro q hlt hle
    have hlevel := state_of_after h.ordered fun t ht =>
      Binary64.lt_of_le_of_lt (Binary64.le_trans (h.le_of_last hlast ht) hfront) hlt
    rw [state_addPulse h.ordered hback, decide_eq_true ⟨hlt, hle⟩, hlevel, Bool.xor_true]
  after := by
    intro q hlt
    have hfar : a ≤ t1 := Binary64.le_trans hfront hback
    have hlevel := state_of_after h.ordered fun t ht =>
      Binary64.lt_of_le_of_lt (Binary64.le_trans (h.le_of_last hlast ht) hfar) hlt
    have hout : ¬ (t0 < q ∧ q ≤ t1) := fun hin => Binary64.not_le_of_lt hlt hin.2
    rw [state_addPulse h.ordered hback, decide_eq_false hout, hlevel, Bool.xor_false]

end

end Channel

namespace Sequence

theorem WellFormed.anchor_isFinite {s : Sequence} (h : s.WellFormed) {c : Channel}
    (hc : c ∈ s.channels) : (s.anchor c).isFinite = true := by
  unfold anchor
  cases hl : c.lastSwitch? with
  | none => exact h.startTime_isFinite
  | some last => exact h.isFinite_of_mem hc (List.mem_of_getLast? hl)

/-- **An appended pulse** starts no earlier than the last switch of its channel.  It adds both its
edges after it, or moves it to the end of the pulse, or is lost in rounding; the levels up to its
front edge stay, those inside it are inverted, and the trailing level comes back after it. -/
theorem appendPulse_extends {s s' : Sequence} (hs : s.Reachable) {i : Nat} {delay d : Binary64}
    (h : s.appendPulse i delay d = .ok s') :
    ∃ c c', s.channels[i]? = some c ∧ s'.channels[i]? = some c' ∧
      (let a := c.lastSwitch?.getD s.startTime
       Channel.Extends a (a + delay) (a + delay + d) c c') ∧ SameBut i s s' := by
  have hw := hs.wellFormed
  obtain ⟨hdelay, hd, c, hi, h1, rfl⟩ := appendPulse_eq_ok.1 h
  have hc := List.mem_of_getElem? hi
  -- Only the back edge is checked; the front edge could not be infinite before a finite sum.
  have h0 := Binary64.isFinite_of_add hd.1 h1
  have hlast : ∀ t, c.lastSwitch? = some t → t = s.anchor c := fun t ht => by simp [anchor, ht]
  refine ⟨c, _, hi, getElem?_pulsed hi _ _, ?_, sameBut_modify s i fun _ => rfl⟩
  rw [if_pos rfl]
  exact (hw.channels c hc).extends_addPulse hlast
    (Binary64.le_add (hw.anchor_isFinite hc) hdelay.1 hdelay.2) (le_back_edge h0 hd) h0 h1

/-- The delay is lost beside the last switch, so that the pulse joins the one before it. -/
theorem appendPulse_extends_joined :
    let far := Binary64.ofNat (10 ^ 16)
    let s := [Edit.addPulse 0 Binary64.zero far].foldl Sequence.attempt
      ⟨[Channel.resting false, Channel.resting true], Binary64.zero, Binary64.zero⟩
    s.Reachable ∧ ∃ s' c c', s.appendPulse 0 (.ofRatio false 1 2) (.ofNat 4) = .ok s' ∧
      s.channels[0]? = some c ∧ s'.channels[0]? = some c' ∧
      c.switches = [Binary64.zero, far] ∧ c'.switches = [Binary64.zero, .ofNat (10 ^ 16 + 4)] ∧
      Channel.Extends far far (.ofNat (10 ^ 16 + 4)) c c' ∧ SameBut 0 s s' := by
  intro far s
  have hs : s.Reachable := .attempt _ (@Sequence.Reachable.withDefaults [false, true] _ rfl)
  let c : Channel := ⟨false, [Binary64.zero, far]⟩
  let c' : Channel := ⟨false, [Binary64.zero, .ofNat (10 ^ 16 + 4)]⟩
  have hi : s.channels[0]? = some c := by decide +kernel
  have hok : s.appendPulse 0 (.ofRatio false 1 2) (.ofNat 4) =
      .ok ⟨[c', Channel.resting true], Binary64.zero, Binary64.zero⟩ :=
    Except.eq_ok_of_toOption (by decide +kernel)
  obtain ⟨d, d', hd, hd', hextends, hsame⟩ := appendPulse_extends hs hok
  obtain rfl : c = d := Option.some.inj (hi.symm.trans hd)
  obtain rfl : c' = d' := Option.some.inj hd'
  have hfront : far + .ofRatio false 1 2 = far := by decide +kernel
  have hback : far + .ofNat 4 = .ofNat (10 ^ 16 + 4) := by decide +kernel
  have hlast : c.lastSwitch?.getD s.startTime = far := rfl
  simp only [hlast, hfront, hback] at hextends
  exact ⟨hs, _, c, c', hok, hi, hd', rfl, rfl, hextends, hsame⟩

end Sequence
end PulseSequencer
