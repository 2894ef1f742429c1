import PulseSequencer.Proofs.Channel.ToggleSet
import PulseSequencer.Proofs.Sequence.Switches

/-!
Pulses laid over one another.

A pulse is a switch at its front edge and one at its back edge.  The back edge is never before the
front edge, so a time that lies after one edge only lies inside the pulse (`inside_eq_xor`), also
where the duration is lost in rounding and both edges are at one time.  A pulse therefore inverts
the levels inside it and no others, whichever edges are already there (`inverts_of_pulse`), and a
run of pulses inverts the level at a time once for each pulse around it (`exists_state_addPulses`).
The main statement is `addPulse_overlays`.
-/

namespace PulseSequencer

theorem inside_eq_xor {t0 t1 : Binary64} (h : t0 ≤ t1) (q : Binary64) :
    decide (t0 < q ∧ q ≤ t1) = (decide (t0 < q) ^^ decide (t1 < q)) := by
  obtain ⟨h0, h1, hle⟩ := Binary64.le_iff.1 h
  simp only [Binary64.lt_iff, Binary64.le_iff, h0, h1, true_and]
  cases hq : q.isNaN with
  | true => simp
  | false =>
    simp only [true_and]
    by_cases hfront : t0.position < q.position
    · by_cases hback : t1.position < q.position
      · have hout : ¬ q.position ≤ t1.position := by omega
        simp [hfront, hback, hout]
      · have hin : q.position ≤ t1.position := by omega
        simp [hfront, hback, hin]
    · have hback : ¬ t1.position < q.position := by omega
      simp [hfront, hback]

theorem le_back_edge {t0 d : Binary64} (h0 : t0.isFinite = true)
    (hd : d.isFinite = true ∧ ¬ d ≤ Binary64.zero) : t0 ≤ t0 + d :=
  Binary64.le_add h0 hd.1 fun hlt => hd.2 (Binary64.le_of_lt hlt)

namespace Channel

/-- A pulse as its two edges. -/
def addPulse (c : Channel) (t0 t1 : Binary64) : Channel := (c.addSwitch t0).addSwitch t1

/-- **A pulse inverts the levels inside it**, whichever of its edges are there already. -/
theorem state_addPulse {c : Channel} (h : Ordered c.switches) {t0 t1 : Binary64} (hle : t0 ≤ t1)
    (q : Binary64) : (c.addPulse t0 t1).state q = (c.state q ^^ decide (t0 < q ∧ q ≤ t1)) := by
  obtain ⟨h0, h1, -⟩ := Binary64.le_iff.1 hle
  rw [addPulse, state_addSwitch (h.toggle h0) h1, state_addSwitch h h0, inside_eq_xor hle,
    Bool.xor_assoc]

end Channel

namespace Sequence

/-! ## One pulse -/

/-- Nothing but the switches of channel `i` differs. -/
structure SameBut (i : Nat) (s s' : Sequence) : Prop where
  others : ∀ j, j ≠ i → s'.channels[j]? = s.channels[j]?
  defaults : s'.defaults = s.defaults
  start : s'.declaredStart = s.declaredStart
  stop : s'.declaredStop = s.declaredStop

theorem sameBut_modify (s : Sequence) (i : Nat) {f : Channel → Channel}
    (hf : ∀ c, (f c).default = c.default) :
    SameBut i s { s with channels := s.channels.modify i f } := by
  refine ⟨fun j hj => ?_, ?_, rfl, rfl⟩
  · simp [Ne.symm hj]
  · refine List.ext_getElem? fun j => ?_
    simp only [defaults, List.getElem?_map, List.getElem?_modify, Option.map_eq_map,
      Option.map_map]
    congr 1
    funext c
    by_cases hij : i = j
    · simp [hij, hf]
    · simp [hij]

/-- From the time `t0` to the time `t1` channel `i` is inverted, and nothing else differs. -/
structure Inverts (s : Sequence) (i : Nat) (t0 t1 : Binary64) (s' : Sequence) : Prop where
  levels : ∃ c c', s.channels[i]? = some c ∧ s'.channels[i]? = some c' ∧
    ∀ q, c'.state q = (c.state q ^^ decide (t0 < q ∧ q ≤ t1))
  rest : SameBut i s s'

/-- The sequence with one more pulse. -/
def pulsed (s : Sequence) (i : Nat) (t0 t1 : Binary64) : Sequence :=
  { s with channels := s.channels.modify i (·.addPulse t0 t1) }

theorem getElem?_pulsed {s : Sequence} {i j : Nat} {c : Channel} (hj : s.channels[j]? = some c)
    (t0 t1 : Binary64) :
    (s.pulsed i t0 t1).channels[j]? = some (if i = j then c.addPulse t0 t1 else c) := by
  simp [pulsed, List.getElem?_modify, hj]

/-- **A pulse inverts one channel inside it.** -/
theorem inverts_of_pulse {s : Sequence} (h : s.WellFormed) {i : Nat} {c : Channel}
    (hi : s.channels[i]? = some c) {t0 t1 : Binary64} (hle : t0 ≤ t1) :
    Inverts s i t0 t1 (s.pulsed i t0 t1) := by
  refine ⟨⟨c, c.addPulse t0 t1, hi, ?_, ?_⟩, sameBut_modify s i fun _ => rfl⟩
  · rw [getElem?_pulsed hi, if_pos rfl]
  · exact Channel.state_addPulse (h.channels c (List.mem_of_getElem? hi)).ordered hle

theorem alike_pulsed_twice {s : Sequence} (h : s.WellFormed) (i : Nat) {t0 t1 : Binary64}
    (h0 : t0.isNaN = false) (h1 : t1.isNaN = false) :
    Alike ((s.pulsed i t0 t1).pulsed i t0 t1) s := by
  refine ⟨rfl, rfl, List.ext_getElem? fun j => ?_⟩
  rw [List.getElem?_map, List.getElem?_map]
  cases hj : s.channels[j]? with
  | none => simp [pulsed, List.getElem?_modify, hj]
  | some c =>
    rw [getElem?_pulsed (getElem?_pulsed hj t0 t1)]
    by_cases hij : i = j
    · have hord := (h.channels c (List.mem_of_getElem? hj)).ordered
      have hedges : ∀ t ∈ [t0, t1], t.isNaN = false := by simp [h0, h1]
      simp only [hij, if_true, Option.map_some]
      exact congrArg some (Channel.view_foldl_twice hedges hord)
    · simp [hij]

end Sequence

/-! ## Runs of pulses -/

/-- A pulse to lay over a channel. -/
structure Overlay where
  channel : Nat
  t0 : Binary64
  duration : Binary64

namespace Overlay

/-- The pulse is around the time `q` of channel `i`. -/
def covers (i : Nat) (q : Binary64) (p : Overlay) : Bool :=
  decide (p.channel = i ∧ p.t0 < q ∧ q ≤ p.t0 + p.duration)

/-- The switches of a pulse, with the number of its channel. -/
def edges (p : Overlay) : List (Nat × Binary64) :=
  [(p.channel, p.t0), (p.channel, p.t0 + p.duration)]

/-- The pulse passes the checks for a sequence of `n` channels. -/
structure Acceptable (n : Nat) (p : Overlay) : Prop where
  front : p.t0.isFinite = true
  duration : p.duration.isFinite = true ∧ ¬ p.duration ≤ Binary64.zero
  back : (p.t0 + p.duration).isFinite = true
  channel : p.channel < n

theorem Acceptable.finite {n : Nat} {p : Overlay} (h : p.Acceptable n) :
    ∀ e ∈ p.edges, e.2.isFinite = true := by
  simp [edges, h.front, h.back]

end Overlay

namespace Sequence

/-- Lays pulses over the channels one after the other, as long as they are accepted. -/
def addPulses (s : Sequence) (ps : List Overlay) : Except ValidationError Sequence :=
  ps.foldlM (fun s p => s.addPulse p.channel p.t0 p.duration) s

theorem addPulse_eq_ok_pulsed {s s' : Sequence} {p : Overlay} :
    s.addPulse p.channel p.t0 p.duration = .ok s' ↔
      p.Acceptable s.nchannels ∧ s' = s.pulsed p.channel p.t0 (p.t0 + p.duration) := by
  rw [addPulse_eq_ok]
  constructor
  · rintro ⟨h0, hd, h1, hi, rfl⟩
    exact ⟨⟨h0, hd, h1, hi⟩, rfl⟩
  · rintro ⟨⟨h0, hd, h1, hi⟩, rfl⟩
    exact ⟨h0, hd, h1, hi, rfl⟩

theorem pulsed_eq_foldl_switched (s : Sequence) (p : Overlay) :
    s.pulsed p.channel p.t0 (p.t0 + p.duration) = p.edges.foldl switched s := by
  simp only [pulsed, Overlay.edges, List.foldl_cons, List.foldl_nil, switched,
    List.modify_modify_eq]
  rfl

/-- **A pulse made twice** is gone. -/
theorem exists_addPulse_again {s s' : Sequence} (hs : s.WellFormed) {p : Overlay}
    (h : s.addPulse p.channel p.t0 p.duration = .ok s') :
    ∃ s'', s'.addPulse p.channel p.t0 p.duration = .ok s'' ∧ s''.equal s = true := by
  have hs' : s'.WellFormed := hs.edit (e := .addPulse p.channel p.t0 p.duration) h
  obtain ⟨hacc, rfl⟩ := addPulse_eq_ok_pulsed.1 h
  have hn : (s.pulsed p.channel p.t0 (p.t0 + p.duration)).nchannels = s.nchannels := by
    simp [pulsed, nchannels]
  have hagain := addPulse_eq_ok_pulsed.2 ⟨hn.symm ▸ hacc, rfl⟩
  have hs'' := hs'.edit (e := .addPulse p.channel p.t0 p.duration) hagain
  have halike := alike_pulsed_twice hs p.channel (Binary64.isNaN_of_isFinite hacc.front)
    (Binary64.isNaN_of_isFinite hacc.back)
  exact ⟨_, hagain, halike.equal hs'' hs⟩

/-- **One pulse of a run** inverts the levels it is around. -/
theorem exists_state_pulsed {s : Sequence} (h : s.WellFormed) {p : Overlay}
    (hp : p.Acceptable s.nchannels) {i : Nat} {c : Channel} (hi : s.channels[i]? = some c) :
    ∃ c', (s.pulsed p.channel p.t0 (p.t0 + p.duration)).channels[i]? = some c' ∧
      ∀ q, c'.state q = (c.state q ^^ p.covers i q) := by
  refine ⟨_, getElem?_pulsed hi _ _, fun q => ?_⟩
  have hord := (h.channels c (List.mem_of_getElem? hi)).ordered
  by_cases hch : p.channel = i
  · rw [if_pos hch, Channel.state_addPulse hord (le_back_edge hp.front hp.duration)]
    simp [Overlay.covers, hch]
  · simp [Overlay.covers, hch]

theorem WellFormed.addPulses {s s' : Sequence} (hs : s.WellFormed) {ps : List Overlay}
    (h : s.addPulses ps = .ok s') : s'.WellFormed := by
  refine Except.foldlM_keeps (I := WellFormed) (fun {p _ _} hs hp => ?_) hs h
  exact hs.edit (e := .addPulse p.channel p.t0 p.duration) hp

/-- **A run of pulses** inverts the level at a time once for each pulse around it. -/
theorem exists_state_addPulses {ps : List Overlay} : ∀ {s s' : Sequence}, s.WellFormed →
    s.addPulses ps = .ok s' → ∀ {i : Nat} {c : Channel}, s.channels[i]? = some c →
    ∃ c', s'.channels[i]? = some c' ∧
      ∀ q, c'.state q = (c.state q ^^ ps.countP (·.covers i q) % 2 == 1) := by
  induction ps with
  | nil =>
    intro s s' _ h i c hi
    obtain rfl := Except.pure_eq_ok.1 h
    exact ⟨c, hi, by simp⟩
  | cons p ps ih =>
    intro s s' hs h i c hi
    obtain ⟨s₁, hp, h⟩ := Except.bind_eq_ok.1 h
    have hs₁ : s₁.WellFormed := hs.edit (e := .addPulse p.channel p.t0 p.duration) hp
    obtain ⟨hacc, rfl⟩ := addPulse_eq_ok_pulsed.1 hp
    obtain ⟨c₁, hc₁, hstate₁⟩ := exists_state_pulsed hs hacc hi
    obtain ⟨c', hc', hstate'⟩ := ih hs₁ h hc₁
    refine ⟨c', hc', fun q => ?_⟩
    rw [hstate', hstate₁, List.countP_cons, Nat.add_comm, odd_add, Bool.xor_assoc]
    cases p.covers i q <;> rfl

theorem exists_addPulses_of_perm {s s' : Sequence} (hs : s.WellFormed) {ps ps' : List Overlay}
    (hperm : ps.Perm ps') (h : s.addPulses ps = .ok s') :
    ∃ s'', s.addPulses ps' = .ok s'' ∧ Alike s' s'' := by
  have hf : ∀ p ∈ ps, ∀ s s' : Sequence, s.addPulse p.channel p.t0 p.duration = .ok s' ↔
      p.Acceptable s.nchannels ∧ s' = p.edges.foldl switched s := by
    intro p _ s s'
    rw [addPulse_eq_ok_pulsed, pulsed_eq_foldl_switched]
  exact exists_foldlM_of_perm hf (fun _ _ _ hacc => hacc.finite) hperm hs h

/-- **Pulses overlay.** A pulse inverts its channel after its front edge and up to its back edge,
and nothing else; once more, it is gone.  Pulses on a channel without switches leave each level
inverted as often as pulses are around it, in whatever order they come. -/
theorem addPulse_overlays {s : Sequence} (hs : s.Reachable) :
    (∀ i t0 d s', s.addPulse i t0 d = .ok s' → Inverts s i t0 (t0 + d) s' ∧
      ∃ s'', s'.addPulse i t0 d = .ok s'' ∧ s''.equal s = true) ∧
    ∀ ps s', s.addPulses ps = .ok s' →
      (∀ i c, s.channels[i]? = some c → c.switches = [] → ∃ c', s'.channels[i]? = some c' ∧
        ∀ q, c'.state q = (c.default ^^ ps.countP (·.covers i q) % 2 == 1)) ∧
      ∀ ps', ps.Perm ps' → ∃ s'', s.addPulses ps' = .ok s'' ∧ s''.equal s' = true := by
  have hw := hs.wellFormed
  refine ⟨fun i t0 d s' h => ?_, fun ps s' h => ⟨fun i c hi hempty => ?_, fun ps' hperm => ?_⟩⟩
  · have hagain := exists_addPulse_again (p := ⟨i, t0, d⟩) hw h
    obtain ⟨hacc, rfl⟩ := (addPulse_eq_ok_pulsed (p := ⟨i, t0, d⟩)).1 h
    have hinverts := inverts_of_pulse hw (List.getElem?_eq_getElem hacc.channel)
      (le_back_edge hacc.front hacc.duration)
    exact ⟨hinverts, hagain⟩
  · obtain ⟨c', hc', hstate⟩ := exists_state_addPulses hw h hi
    exact ⟨c', hc', fun q => by rw [hstate, Channel.state_of_empty hempty]⟩
  · obtain ⟨s'', hs'', halike⟩ := exists_addPulses_of_perm hw hperm h
    exact ⟨s'', hs'', halike.symm.equal (hw.addPulses hs'') (hw.addPulses h)⟩

/-- A pulse from 1 to 5 with a gap cut into it, a pulse that goes on at its back edge, and one so
late that its duration is lost; the first of them once more by itself. -/
theorem addPulse_overlays_nested :
    let s : Sequence := ⟨[false, true].map Channel.resting, Binary64.zero, Binary64.zero⟩
    let ps : List Overlay := [⟨0, .ofNat 1, .ofNat 4⟩, ⟨0, .ofNat 2, .ofNat 1⟩,
      ⟨0, .ofNat 5, .ofNat 2⟩, ⟨0, .ofNat (10 ^ 20), .ofNat 1⟩]
    s.Reachable ∧
    (∃ s', s.addPulse 0 (.ofNat 1) (.ofNat 4) = .ok s' ∧
      Inverts s 0 (.ofNat 1) (.ofNat 1 + .ofNat 4) s' ∧
      ∃ s'', s'.addPulse 0 (.ofNat 1) (.ofNat 4) = .ok s'' ∧ s''.equal s = true) ∧
    ∃ s' c, s.addPulses ps = .ok s' ∧ s'.channels[0]? = some c ∧
      c.switches = [.ofNat 1, .ofNat 2, .ofNat 3, .ofNat 7] ∧
      (∀ q, c.state q = (false ^^ ps.countP (·.covers 0 q) % 2 == 1)) ∧
      ∃ s'', s.addPulses ps.reverse = .ok s'' ∧ s''.equal s' = true := by
  intro s ps
  have hs : s.Reachable := @Sequence.Reachable.withDefaults [false, true] _ rfl
  obtain ⟨hone, hrun⟩ := addPulse_overlays hs
  let c : Channel := ⟨false, [.ofNat 1, .ofNat 2, .ofNat 3, .ofNat 7]⟩
  have hfirst : s.addPulse 0 (.ofNat 1) (.ofNat 4) = .ok (s.pulsed 0 (.ofNat 1) (.ofNat 5)) :=
    Except.eq_ok_of_toOption (by decide +kernel)
  have hps : s.addPulses ps = .ok ⟨[c, Channel.resting true], Binary64.zero, Binary64.zero⟩ :=
    Except.eq_ok_of_toOption (by decide +kernel)
  obtain ⟨hlevels, horder⟩ := hrun ps _ hps
  obtain ⟨c', hc', hstate⟩ := hlevels 0 (Channel.resting false) rfl rfl
  obtain rfl : c = c' := Option.some.inj hc'
  exact ⟨hs, ⟨_, hfirst, hone 0 _ _ _ hfirst⟩, _, c, hps, hc', rfl, hstate,
    horder _ ps.reverse_perm.symm⟩

end Sequence
end PulseSequencer
