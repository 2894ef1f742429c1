import PulseSequencer.Channel.Basic
import PulseSequencer.Proofs.Binary64.Order

/-!
The switches of a channel as a set of times.

Two times count as the same if they lie at the same position, as the two zeros do.  The switches of
a channel are ordered: their positions strictly ascend.  A switch that is added puts its position
among them or takes it away (`mem_toggle_iff`), so after a run of them a position is there or not by
how often it was hit (`mem_foldl_addSwitch`), in whatever order.  Since an ascending list is given
by its members, the order of a run does not show in what is left: `view_foldl_of_perm`.
-/

namespace PulseSequencer

theorem odd_add (m n : Nat) : ((m + n) % 2 == 1) = ((m % 2 == 1) ^^ (n % 2 == 1)) := by
  rcases Nat.mod_two_eq_zero_or_one m with hm | hm <;>
    rcases Nat.mod_two_eq_zero_or_one n with hn | hn <;>
      simp [Nat.add_mod, hm, hn]

namespace Channel

open Binary64 (position)

/-! ## Ordered times -/

/-- Times that strictly ascend; even a single one is a number. -/
structure Ordered (l : List Binary64) : Prop where
  number : ∀ t ∈ l, t.isNaN = false
  ascending : l.Pairwise (· < ·)

theorem ordered_cons {s : Binary64} {l : List Binary64} :
    Ordered (s :: l) ↔ s.isNaN = false ∧ (∀ u ∈ l, s.position < u.position) ∧ Ordered l := by
  constructor
  · rintro ⟨hn, hasc⟩
    obtain ⟨hs, hl⟩ := List.forall_mem_cons.1 hn
    obtain ⟨hfirst, hrest⟩ := List.pairwise_cons.1 hasc
    exact ⟨hs, fun u hu => (Binary64.lt_iff.1 (hfirst u hu)).2.2, hl, hrest⟩
  · rintro ⟨hs, hfirst, hl, hrest⟩
    refine ⟨List.forall_mem_cons.2 ⟨hs, hl⟩, List.pairwise_cons.2 ⟨fun u hu => ?_, hrest⟩⟩
    exact Binary64.lt_iff.2 ⟨hs, hl u hu, hfirst u hu⟩

theorem Ordered.positions {l : List Binary64} (h : Ordered l) :
    (l.map position).Pairwise (· < ·) :=
  List.pairwise_map.2 (h.ascending.imp fun hlt => (Binary64.lt_iff.1 hlt).2.2)

theorem Ordered.positions_eq {l l' : List Binary64} (h : Ordered l) (h' : Ordered l')
    (hmem : ∀ v, v ∈ l.map position ↔ v ∈ l'.map position) : l.map position = l'.map position := by
  have hnodup : ∀ {l : List Binary64}, Ordered l → (l.map position).Nodup :=
    fun h => h.positions.imp Int.ne_of_lt
  refine ((List.perm_ext_iff_of_nodup (hnodup h) (hnodup h')).2 fun v => hmem v).eq_of_pairwise
    (fun a b _ _ hab hba => ?_) h.positions h'.positions
  exact absurd hab (Int.lt_asymm hba)

theorem Ordered.filter {l : List Binary64} (h : Ordered l) (p : Binary64 → Bool) :
    Ordered (l.filter p) :=
  ⟨fun t ht => h.number t (List.mem_filter.1 ht).1, h.ascending.filter p⟩

theorem Ordered.head_le {l : List Binary64} (h : Ordered l) {s t : Binary64}
    (hs : l.head? = some s) (ht : t ∈ l) : s ≤ t := by
  obtain ⟨rest, rfl⟩ := List.head?_eq_some_iff.1 hs
  rcases List.mem_cons.1 ht with rfl | ht
  · exact Binary64.le_self (h.number t ht)
  · exact Binary64.le_of_lt ((List.pairwise_cons.1 h.ascending).1 t ht)

theorem Ordered.le_getLast {l : List Binary64} (h : Ordered l) {s t : Binary64}
    (hs : l.getLast? = some s) (ht : t ∈ l) : t ≤ s := by
  obtain ⟨init, rfl⟩ := List.getLast?_eq_some_iff.1 hs
  rcases List.mem_append.1 ht with hinit | hlast
  · exact Binary64.le_of_lt ((List.pairwise_append.1 h.ascending).2.2 t hinit s (by simp))
  · rw [List.mem_singleton.1 hlast]
    exact Binary64.le_self (h.number s (by simp))

theorem Ordered.filter_equal {l : List Binary64} (h : Ordered l) {s : Binary64} (hs : s ∈ l) :
    l.filter (·.equal s) = [s] := by
  have hself : s.equal s = true := Binary64.equal_iff.2 ⟨h.number s hs, h.number s hs, rfl⟩
  obtain ⟨pre, post, rfl⟩ := List.append_of_mem hs
  obtain ⟨-, hrest, hpre⟩ := List.pairwise_append.1 h.ascending
  have hother : ∀ {a b : Binary64}, a < b → ¬ a.equal b = true ∧ ¬ b.equal a = true := by
    intro a b hlt
    have := (Binary64.lt_iff.1 hlt).2.2
    exact ⟨fun heq => Int.ne_of_lt this (Binary64.equal_iff.1 heq).2.2,
      fun heq => Int.ne_of_gt this (Binary64.equal_iff.1 heq).2.2⟩
  rw [List.filter_append, List.filter_cons_of_pos (by simpa using hself),
    List.filter_eq_nil_iff.2 fun u hu => (hother (hpre u hu s (by simp))).1,
    List.filter_eq_nil_iff.2 fun u hu => (hother ((List.pairwise_cons.1 hrest).1 u hu)).2,
    List.nil_append]

/-! ## Searches -/

section
variable {p : Binary64 → Bool} {l : List Binary64}
  (h : l.Pairwise fun a b => p b = true → p a = true)
include h

/-- What holds of a time only if it holds of all times before it holds of the first ones, so a
search for the first exception misses none. -/
theorem takeWhile_eq_filter : l.takeWhile p = l.filter p := by
  induction l with
  | nil => rfl
  | cons s rest ih =>
    obtain ⟨hfirst, hrest⟩ := List.pairwise_cons.1 h
    by_cases hs : p s = true
    · rw [List.takeWhile_cons_of_pos hs, List.filter_cons_of_pos hs, ih hrest]
    · have hnone : rest.filter p = [] :=
        List.filter_eq_nil_iff.2 fun u hu hpu => hs (hfirst u hu hpu)
      rw [List.takeWhile_cons_of_neg hs, List.filter_cons_of_neg hs, hnone]

theorem drop_countP : l.drop (l.countP p) = l.filter fun s => !p s := by
  induction l with
  | nil => rfl
  | cons s rest ih =>
    obtain ⟨hfirst, hrest⟩ := List.pairwise_cons.1 h
    by_cases hs : p s = true
    · rw [List.countP_cons_of_pos hs, List.drop_succ_cons, ih hrest,
        List.filter_cons_of_neg (by simp [hs])]
    · have hnone : ∀ u ∈ rest, ¬ p u = true := fun u hu hpu => hs (hfirst u hu hpu)
      rw [List.countP_cons_of_neg hs, List.countP_eq_zero.2 hnone, List.drop_zero]
      refine (List.filter_eq_self.2 fun u hu => ?_).symm
      rcases List.mem_cons.1 hu with rfl | hu
      · simpa using hs
      · simpa using hnone u hu

end

theorem Ordered.initial_lt {l : List Binary64} (h : Ordered l) (q : Binary64) :
    l.Pairwise fun a b => decide (b < q) = true → decide (a < q) = true := by
  refine h.ascending.imp fun {a b} hab hb => ?_
  simp only [decide_eq_true_eq] at hb ⊢
  exact Binary64.lt_of_le_of_lt (Binary64.le_of_lt hab) hb

theorem Ordered.initial_le {l : List Binary64} (h : Ordered l) (q : Binary64) :
    l.Pairwise fun a b => decide (b ≤ q) = true → decide (a ≤ q) = true := by
  refine h.ascending.imp fun {a b} hab hb => ?_
  simp only [decide_eq_true_eq] at hb ⊢
  exact Binary64.le_trans (Binary64.le_of_lt hab) hb

/-! ## One more switch -/

theorem mem_toggle {t u : Binary64} : ∀ {l : List Binary64}, u ∈ toggle t l → u = t ∨ u ∈ l
  | [], h => by simp [toggle] at h; exact .inl h
  | s :: rest, h => by
    simp only [toggle] at h
    split at h
    · simp only [List.mem_cons] at h ⊢
      rcases h with h | h
      · exact .inr (.inl h)
      · rcases mem_toggle h with h | h
        · exact .inl h
        · exact .inr (.inr h)
    · split at h
      · exact .inr (List.mem_cons_of_mem _ h)
      · simpa using h

theorem toggle_cons {s t : Binary64} (hs : s.isNaN = false) (ht : t.isNaN = false)
    (l : List Binary64) : toggle t (s :: l) =
      if s.position < t.position then s :: toggle t l
      else if s.position = t.position then l else t :: s :: l := by
  simp only [toggle, Binary64.lt_iff, Binary64.equal_iff, hs, ht, true_and]

theorem Ordered.toggle {t : Binary64} (ht : t.isNaN = false) {l : List Binary64}
    (h : Ordered l) : Ordered (toggle t l) := by
  induction l with
  | nil => exact ordered_cons.2 ⟨ht, by simp, h⟩
  | cons s rest ih =>
    obtain ⟨hs, hfirst, hrest⟩ := ordered_cons.1 h
    rw [toggle_cons hs ht]
    by_cases hlt : s.position < t.position
    · rw [if_pos hlt]
      refine ordered_cons.2 ⟨hs, fun u hu => ?_, ih hrest⟩
      rcases mem_toggle hu with rfl | hu
      · exact hlt
      · exact hfirst u hu
    · rw [if_neg hlt]
      by_cases heq : s.position = t.position
      · rw [if_pos heq]
        exact hrest
      · rw [if_neg heq]
        refine ordered_cons.2 ⟨ht, fun u hu => ?_, h⟩
        rcases List.mem_cons.1 hu with rfl | hu
        · omega
        · have := hfirst u hu
          omega

/-- **One more switch** turns the presence of its position around and leaves the others alone. -/
theorem Ordered.mem_toggle_iff {t : Binary64} (ht : t.isNaN = false) {l : List Binary64}
    (h : Ordered l) {v : Int} :
    v ∈ (Channel.toggle t l).map position ↔ (v ∈ l.map position ↔ v ≠ t.position) := by
  induction l with
  | nil => simp [Channel.toggle]
  | cons s rest ih =>
    obtain ⟨hs, hfirst, hrest⟩ := ordered_cons.1 h
    -- In a list that ascends from `s`, no position up to that of `s` comes again.
    have hlater : v ∈ rest.map position → s.position < v := by
      intro hv
      obtain ⟨u, hu, rfl⟩ := List.mem_map.1 hv
      exact hfirst u hu
    have ih := ih hrest
    rw [toggle_cons hs ht]
    by_cases hmem : v ∈ rest.map position
    · have hsv := hlater hmem
      by_cases hlt : s.position < t.position
      · simp only [if_pos hlt, List.map_cons, List.mem_cons, ih, hmem, or_true, true_iff]
        omega
      · by_cases heq : s.position = t.position
        · simp only [if_neg hlt, if_pos heq, List.map_cons, List.mem_cons, hmem, or_true, true_iff]
          omega
        · simp only [if_neg hlt, if_neg heq, List.map_cons, List.mem_cons, hmem, or_true, true_iff]
          omega
    · by_cases hlt : s.position < t.position
      · simp only [if_pos hlt, List.map_cons, List.mem_cons, ih, hmem, or_false, false_iff]
        omega
      · by_cases heq : s.position = t.position
        · simp only [if_neg hlt, if_pos heq, List.map_cons, List.mem_cons, hmem, or_false,
            false_iff]
          omega
        · simp only [if_neg hlt, if_neg heq, List.map_cons, List.mem_cons, hmem, or_false]
          omega

/-- **One more switch** changes the parity of every count in which it counts. -/
theorem Ordered.countP_toggle {t : Binary64} (ht : t.isNaN = false) {p : Binary64 → Bool}
    {l : List Binary64} (h : Ordered l) (hp : ∀ u ∈ l, u.position = t.position → p u = p t) :
    (Channel.toggle t l).countP p % 2 = (l.countP p + if p t then 1 else 0) % 2 := by
  induction l with
  | nil => simp [Channel.toggle, List.countP_cons]
  | cons s rest ih =>
    obtain ⟨hs, -, hrest⟩ := ordered_cons.1 h
    obtain ⟨hps, hprest⟩ := List.forall_mem_cons.1 hp
    have ih := ih hrest hprest
    rw [toggle_cons hs ht]
    by_cases hlt : s.position < t.position
    · rw [if_pos hlt, List.countP_cons, List.countP_cons]
      omega
    · rw [if_neg hlt]
      by_cases heq : s.position = t.position
      · -- The switch that is there goes, and counted as the new one does.
        rw [if_pos heq, List.countP_cons, hps heq]
        split <;> omega
      · rw [if_neg heq, List.countP_cons]

/-! ## Runs of switches -/

theorem default_foldl_addSwitch (c : Channel) (ts : List Binary64) :
    (ts.foldl addSwitch c).default = c.default := by
  induction ts generalizing c with
  | nil => rfl
  | cons t ts ih => exact ih (c.addSwitch t)

theorem ordered_foldl_addSwitch {ts : List Binary64} (hts : ∀ t ∈ ts, t.isNaN = false)
    {c : Channel} (h : Ordered c.switches) : Ordered (ts.foldl addSwitch c).switches := by
  induction ts generalizing c with
  | nil => exact h
  | cons t ts ih =>
    obtain ⟨ht, hts⟩ := List.forall_mem_cons.1 hts
    exact ih hts (c := c.addSwitch t) (h.toggle ht)

/-- **After a run of switches** a position that was hit an even number of times is as it was, and
any other is turned around. -/
theorem mem_foldl_addSwitch {ts : List Binary64} (hts : ∀ t ∈ ts, t.isNaN = false) {c : Channel}
    (h : Ordered c.switches) {v : Int} :
    v ∈ (ts.foldl addSwitch c).switches.map position ↔
      (v ∈ c.switches.map position ↔ ts.countP (fun t => t.position == v) % 2 = 0) := by
  induction ts generalizing c with
  | nil => simp
  | cons t ts ih =>
    obtain ⟨ht, hts⟩ := List.forall_mem_cons.1 hts
    have hstep : v ∈ (c.addSwitch t).switches.map position ↔
        (v ∈ c.switches.map position ↔ v ≠ t.position) := h.mem_toggle_iff ht
    rw [List.foldl_cons, ih hts (h.toggle ht), hstep, List.countP_cons]
    by_cases hv : t.position = v
    · have hodd : (ts.countP (fun t => t.position == v) + 1) % 2 = 0 ↔
          ¬ ts.countP (fun t => t.position == v) % 2 = 0 := by omega
      simp only [hv, beq_self_eq_true, if_true, hodd, ne_eq, not_true, iff_false]
      by_cases hmem : v ∈ c.switches.map position <;> simp [hmem]
    · have hne : ¬ v = t.position := fun h => hv h.symm
      simp [hv, hne]

/-! ## Channels by value -/

/-- What counts of a channel: its default and where its switches lie. -/
def view (c : Channel) : Bool × List Int := (c.default, c.switches.map position)

theorem zip_all_iff {α β : Type} {e : α → α → Bool} {f : α → β} {l l' : List α}
    (h : ∀ a ∈ l, ∀ b ∈ l', e a b = true ↔ f a = f b) :
    (l.length = l'.length ∧ ((l.zip l').all fun (a, b) => e a b) = true) ↔
      l.map f = l'.map f := by
  induction l generalizing l' with
  | nil => cases l' <;> simp
  | cons a l ih =>
    cases l' with
    | nil => simp
    | cons b l' =>
      have hrest := @ih l' fun a ha b hb => h a (by simp [ha]) b (by simp [hb])
      simp only [List.length_cons, Nat.add_right_cancel_iff, List.zip_cons_cons, List.all_cons,
        Bool.and_eq_true, List.map_cons, List.cons.injEq, ← hrest, h a (by simp) b (by simp)]
      exact and_left_comm

/-- **Channels are equal by value** if what counts of them is the same. -/
theorem equal_iff {a b : Channel} (ha : ∀ t ∈ a.switches, t.isNaN = false)
    (hb : ∀ t ∈ b.switches, t.isNaN = false) : a.equal b = true ↔ a.view = b.view := by
  have htimes := zip_all_iff (e := Binary64.equal) (f := position) fun s hs t ht => by
    rw [Binary64.equal_iff, ha s hs, hb t ht]
    simp
  simp only [equal, Bool.and_eq_true, beq_iff_eq, and_assoc, htimes, view, Prod.mk.injEq]

/-- **The order of a run of switches does not matter.** -/
theorem view_foldl_of_perm {ts ts' : List Binary64} (hperm : ts.Perm ts')
    (hts : ∀ t ∈ ts, t.isNaN = false) {c : Channel} (h : Ordered c.switches) :
    (ts.foldl addSwitch c).view = (ts'.foldl addSwitch c).view := by
  have hts' : ∀ t ∈ ts', t.isNaN = false := fun t ht => hts t (hperm.mem_iff.2 ht)
  have hpos := (ordered_foldl_addSwitch hts h).positions_eq (ordered_foldl_addSwitch hts' h)
    fun v => by rw [mem_foldl_addSwitch hts h, mem_foldl_addSwitch hts' h, hperm.countP_eq]
  simp only [view, default_foldl_addSwitch, hpos]

/-! ## Channels with finite switches -/

/-- Finite switches in strictly ascending order. -/
structure WellFormed (c : Channel) : Prop where
  finite : ∀ t ∈ c.switches, t.isFinite = true
  ascending : c.switches.Pairwise (· < ·)

theorem WellFormed.ordered {c : Channel} (h : c.WellFormed) : Ordered c.switches :=
  ⟨fun t ht => Binary64.isNaN_of_isFinite (h.finite t ht), h.ascending⟩

theorem WellFormed.resting (level : Bool) : (resting level).WellFormed :=
  ⟨by simp [Channel.resting], by simp [Channel.resting]⟩

theorem WellFormed.addSwitch {c : Channel} (h : c.WellFormed) {t : Binary64}
    (ht : t.isFinite = true) : (c.addSwitch t).WellFormed := by
  refine ⟨fun u hu => ?_, (h.ordered.toggle (Binary64.isNaN_of_isFinite ht)).ascending⟩
  rcases mem_toggle hu with rfl | hu
  · exact ht
  · exact h.finite u hu

theorem WellFormed.withDefault {c : Channel} (h : c.WellFormed) (level : Bool) :
    (c.withDefault level).WellFormed := ⟨h.finite, h.ascending⟩

theorem WellFormed.first_le {c : Channel} (h : c.WellFormed) {first t : Binary64}
    (hfirst : c.firstSwitch? = some first) (ht : t ∈ c.switches) : first ≤ t :=
  h.ordered.head_le hfirst ht

theorem WellFormed.le_last {c : Channel} (h : c.WellFormed) {last t : Binary64}
    (hlast : c.lastSwitch? = some last) (ht : t ∈ c.switches) : t ≤ last :=
  h.ordered.le_getLast hlast ht

end Channel
end PulseSequencer
