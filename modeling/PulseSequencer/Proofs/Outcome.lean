import PulseSequencer.Proofs.Period

/-!
How a compilation ends.

It panics if the declared end has a tick before the start, and then there is no switch
(`outcome_of_before`).  Otherwise the ticks of the switches and of the declared end decide: if all
are within the limit there is a program (`exists_compile_of_within`), and if not the sequence is
refused (`outcome_of_beyond`).  The events are looked at in order of time and before the declared
end, so what is reported is the smallest tick of a switch beyond the limit, or the declared ticks if
no switch is: `compile_refused`.
-/

namespace PulseSequencer

/-- The error that a failed compilation reports; a panic reports none. -/
def CompileError.cause? : CompileError → Option ValidationError
  | .invalid cause => some cause
  | .tooManyChannels _ => none
  | .switchBeforeStart .. => none

theorem CompileError.cause?_eq_some {e : CompileError} {cause : ValidationError} :
    e.cause? = some cause ↔ e = .invalid cause := by
  cases e <;> simp [cause?]

namespace Compiler

/-- What is seen of a compilation: a program, an error, or nothing but a panic. -/
def outcome (c : Compiler) (s : Sequence) : Except (Option ValidationError) Program :=
  (c.compile s).mapError CompileError.cause?

theorem outcome_of_ok {c : Compiler} {s : Sequence} {p : Program} (h : c.compile s = .ok p) :
    c.outcome s = .ok p := by
  rw [outcome, h]
  rfl

theorem outcome_of_error {c : Compiler} {s : Sequence} {e : CompileError}
    (h : c.compile s = .error e) : c.outcome s = .error e.cause? := by
  rw [outcome, h]
  rfl

theorem invalid_of_compile {c : Compiler} {s : Sequence} (hpanic : c.outcome s ≠ .error none)
    {e : CompileError} (h : c.compile s = .error e) : ∃ cause, e = .invalid cause := by
  rw [outcome_of_error h] at hpanic
  cases hcause : e.cause? with
  | none => exact absurd (by rw [hcause]) hpanic
  | some cause => exact ⟨cause, CompileError.cause?_eq_some.1 hcause⟩

theorem compile_eq_of_outcome_eq {c : Compiler} {a b : Sequence} (h : c.outcome a = c.outcome b)
    (hpanic : c.outcome a ≠ .error none) : c.compile a = c.compile b := by
  cases ha : c.compile a with
  | ok p =>
    cases hb : c.compile b with
    | ok q =>
      rw [outcome_of_ok ha, outcome_of_ok hb] at h
      cases h
      rfl
    | error e =>
      rw [outcome_of_ok ha, outcome_of_error hb] at h
      cases h
  | error e =>
    obtain ⟨cause, rfl⟩ := invalid_of_compile hpanic ha
    rw [outcome_of_error ha] at h
    cases hb : c.compile b with
    | ok q =>
      rw [outcome_of_ok hb] at h
      cases h
    | error e' =>
      rw [outcome_of_error hb, Except.error.injEq] at h
      rw [CompileError.cause?_eq_some.1 h.symm]

/-- The ticks that a refusal reports: the smallest of a switch beyond the limit, or the declared
ones if no switch is beyond it. -/
def excessTicks (c : Compiler) (s : Sequence) : Int :=
  ((c.switchTicks s).filter fun k => decide ((maxProgramTicks : Int) < k)).min?.getD
    (c.declaredTicks s)

theorem excessTicks_cases (c : Compiler) (s : Sequence) :
    c.excessTicks s ∈ c.switchTicks s ∨ c.excessTicks s = c.declaredTicks s := by
  unfold excessTicks
  cases hmin : ((c.switchTicks s).filter fun k => decide ((maxProgramTicks : Int) < k)).min? with
  | none => exact .inr rfl
  | some m => exact .inl (List.mem_filter.1 (List.min?_eq_some_iff.1 hmin).1).1

theorem exists_time_of_excessTicks (c : Compiler) (s : Sequence) :
    ∃ t, ((∃ ch ∈ s.channels, t ∈ ch.switches) ∨ t = c.declaredEnd s) ∧
      c.excessTicks s = c.quantize t - c.quantize s.startTime := by
  rcases excessTicks_cases c s with hmem | heq
  · obtain ⟨ch, hch, t, ht, hticks⟩ := mem_switchTicks.1 hmem
    exact ⟨t, .inl ⟨ch, hch, ht⟩, hticks.symm⟩
  · exact ⟨_, .inr rfl, heq⟩

/-- If the declared ticks exceed the limit and no switch lies beyond them, a refusal reports the
smallest ticks beyond the limit, declared or of a switch. -/
theorem excessTicks_le_iff {c : Compiler} {s : Sequence}
    (hle : ∀ k ∈ c.switchTicks s, k ≤ c.declaredTicks s)
    (hlimit : maxProgramTicks < c.declaredTicks s) {n : Int} : c.excessTicks s ≤ n ↔
      ∃ k, (k ∈ c.switchTicks s ∨ k = c.declaredTicks s) ∧ maxProgramTicks < k ∧ k ≤ n := by
  unfold excessTicks
  cases hmin : ((c.switchTicks s).filter fun k => decide ((maxProgramTicks : Int) < k)).min? with
  | none =>
    rw [List.min?_eq_none_iff, List.filter_eq_nil_iff] at hmin
    constructor
    · intro hn
      exact ⟨_, .inr rfl, hlimit, hn⟩
    · rintro ⟨k, hk | rfl, hbeyond, hn⟩
      · exact absurd (decide_eq_true hbeyond) (hmin k hk)
      · exact hn
  | some m =>
    obtain ⟨hm, hleast⟩ := List.min?_eq_some_iff.1 hmin
    obtain ⟨hm, hbeyond⟩ := List.mem_filter.1 hm
    constructor
    · intro hn
      exact ⟨m, .inl hm, of_decide_eq_true hbeyond, hn⟩
    · rintro ⟨k, hk | rfl, hk', hn⟩
      · exact Int.le_trans (hleast k (List.mem_filter.2 ⟨hk, decide_eq_true hk'⟩)) hn
      · exact Int.le_trans (hle m hm) hn

theorem limit_lt_max_iff {c : Compiler} {s : Sequence} :
    (maxProgramTicks : Int) < max (c.declaredTicks s) (c.lastTick s) ↔
      maxProgramTicks < c.declaredTicks s ∨ ∃ k ∈ c.switchTicks s, maxProgramTicks < k := by
  have hlast : (maxProgramTicks : Int) < c.lastTick s ↔
      ∃ k ∈ c.switchTicks s, maxProgramTicks < k := by
    rw [← Int.not_le, lastTick_le_iff (Int.natCast_nonneg _)]
    simp
  rw [← hlast]
  omega

/-! ## Ticks that fail -/

section
variable {c : Compiler} {s : Sequence} {t : Binary64}

theorem offset_of_neg (h : c.ticksTo s t < 0) :
    c.offset s.startTime t = .error (.switchBeforeStart t s.startTime) := by
  unfold ticksTo at h
  rw [offset, if_pos h]

theorem offset_eq_invalid {cause : ValidationError}
    (h : c.offset s.startTime t = .error (.invalid cause)) :
    maxProgramTicks < c.ticksTo s t ∧
      cause = .resourceLimit "program ticks" maxProgramTicks (c.ticksTo s t).toNat := by
  by_cases h0 : 0 ≤ c.ticksTo s t
  · have hcause := offset_eq_error h0 h
    simp only [CompileError.invalid.injEq] at hcause
    refine ⟨Int.not_le.1 fun hle => ?_, hcause⟩
    rw [offset_eq_ok.2 ⟨⟨h0, hle⟩, rfl⟩] at h
    cases h
  · rw [offset_of_neg (Int.not_le.1 h0)] at h
    cases h

end

theorem excessTicks_of_event {c : Compiler} (hd : c.dt.Positive) {s : Sequence} (hs : s.WellFormed)
    {before after : List (Binary64 × Nat)} {a : Binary64 × Nat}
    (hevents : s.events = before ++ a :: after) (hbefore : ∀ b ∈ before, c.Within s b.1)
    (ha : maxProgramTicks < c.ticksTo s a.1) : c.excessTicks s = c.ticksTo s a.1 := by
  have hsorted := hs.events_sorted
  rw [hevents] at hsorted
  have hafter := (List.pairwise_cons.1 (List.pairwise_append.1 hsorted).2.1).1
  have hmin : ((c.switchTicks s).filter fun k => decide ((maxProgramTicks : Int) < k)).min? =
      some (c.ticksTo s a.1) := by
    rw [List.min?_eq_some_iff]
    constructor
    · refine List.mem_filter.2 ⟨mem_switchTicks_iff_event.2 ⟨a, ?_, rfl⟩, by simpa using ha⟩
      rw [hevents]
      simp
    · intro k hk
      obtain ⟨hk, hbeyond⟩ := List.mem_filter.1 hk
      obtain ⟨e, he, rfl⟩ := mem_switchTicks_iff_event.1 hk
      rw [hevents, List.mem_append, List.mem_cons] at he
      rcases he with he | rfl | he
      · exact absurd (hbefore e he).2 (Int.not_le.2 (of_decide_eq_true hbeyond))
      · exact Int.le_refl _
      · have := quantize_le_quantize hd (hafter e he)
        unfold ticksTo
        omega
  rw [excessTicks, hmin]
  rfl

theorem excessTicks_of_within {c : Compiler} {s : Sequence}
    (h : ∀ a ∈ s.events, c.Within s a.1) : c.excessTicks s = c.declaredTicks s := by
  have hnone : ((c.switchTicks s).filter fun k => decide ((maxProgramTicks : Int) < k)) = [] := by
    rw [List.filter_eq_nil_iff]
    intro k hk hbeyond
    obtain ⟨e, he, rfl⟩ := mem_switchTicks_iff_event.1 hk
    exact absurd (h e he).2 (Int.not_le.2 (of_decide_eq_true hbeyond))
  rw [excessTicks, hnone]
  rfl

/-- **What a refusal reports.** -/
theorem cause_of_compile {c : Compiler} (hd : c.dt.Positive) {s : Sequence} (hs : s.WellFormed)
    {cause : ValidationError} (h : c.compile s = .error (.invalid cause)) :
    maxProgramTicks < c.excessTicks s ∧
      cause = .resourceLimit "program ticks" maxProgramTicks (c.excessTicks s).toNat := by
  rcases compile_eq_error_first hs.width.2 h with ⟨before, a, after, hevents, hbefore, ha⟩ |
    ⟨hwithin, hend⟩
  · have hspec := offset_eq_invalid ha
    rw [excessTicks_of_event hd hs hevents hbefore hspec.1]
    exact hspec
  · rw [excessTicks_of_within hwithin]
    exact offset_eq_invalid hend

/-! ## The three ends of a compilation -/

section
variable {c : Compiler} (hc : c.Accepted) {s : Sequence} (hs : s.WellFormed)
include hc hs

theorem switchTicks_nonneg : ∀ k ∈ c.switchTicks s, 0 ≤ k := by
  intro k hk
  obtain ⟨ch, hch, t, ht, rfl⟩ := mem_switchTicks.1 hk
  have := quantize_le_quantize hc.positive (hs.startTime_le hch ht)
  unfold ticksTo
  omega

/-- A switch holds the ends of a sequence in order, and so the declared end after the start. -/
theorem declaredTicks_nonneg_of_event {e : Binary64 × Nat} (he : e ∈ s.events) :
    0 ≤ c.declaredTicks s := by
  obtain ⟨ch, hi, ht⟩ := Sequence.mem_events.1 (show (e.1, e.2) ∈ s.events from he)
  have hch := List.mem_of_getElem? hi
  have hord : s.startTime ≤ s.stopTime :=
    Binary64.le_trans (hs.startTime_le hch ht) (hs.le_stopTime hch ht)
  have hend := startTime_le_declaredEnd hc hs fun _ => hord
  have := quantize_le_quantize hc.positive hend
  unfold declaredTicks ticksTo
  omega

/-- **A declared end before the start is a panic.** -/
theorem outcome_of_before (h : c.declaredTicks s < 0) : c.outcome s = .error none := by
  cases hcompile : c.compile s with
  | ok p =>
    have := (declaredTicks_within hcompile).1
    omega
  | error e =>
    rw [outcome_of_error hcompile]
    rcases compile_eq_error_first hs.width.2 hcompile with ⟨before, a, after, hevents, -, -⟩ |
      ⟨-, hend⟩
    · have hmem : a ∈ s.events := by
        rw [hevents]
        simp
      have := declaredTicks_nonneg_of_event hc hs hmem
      omega
    · rw [offset_of_neg h] at hend
      cases hend
      rfl

/-- **Within the limit there is a program.** -/
theorem exists_compile_of_within (h0 : 0 ≤ c.declaredTicks s)
    (h : max (c.declaredTicks s) (c.lastTick s) ≤ maxProgramTicks) :
    ∃ p, c.compile s = .ok p := by
  refine exists_compile_iff.2 ⟨hs.width.2, ?_, h0, ?_⟩
  · intro ch hch t ht
    have hmem : c.ticksTo s t ∈ c.switchTicks s := mem_switchTicks.2 ⟨ch, hch, t, ht, rfl⟩
    have hlast := (lastTick_le_iff (c := c) (s := s) (Int.natCast_nonneg maxProgramTicks)).1
      (by omega) _ hmem
    exact ⟨switchTicks_nonneg hc hs _ hmem, hlast⟩
  · show c.declaredTicks s ≤ _
    omega

/-- **Beyond the limit the sequence is refused.** -/
theorem outcome_of_beyond (h0 : 0 ≤ c.declaredTicks s)
    (h : (maxProgramTicks : Int) < max (c.declaredTicks s) (c.lastTick s)) :
    c.outcome s = .error (some
      (.resourceLimit "program ticks" maxProgramTicks (c.excessTicks s).toNat)) := by
  cases hcompile : c.compile s with
  | ok p =>
    have := declaredTicks_within hcompile
    have := lastTick_within hcompile
    omega
  | error e =>
    obtain ⟨t, ht, hfail⟩ := compile_eq_error hs.width.2 hcompile
    have hnonneg : 0 ≤ c.ticksTo s t := by
      rcases ht with ⟨ch, hch, ht⟩ | rfl
      · exact switchTicks_nonneg hc hs _ (mem_switchTicks.2 ⟨ch, hch, t, ht, rfl⟩)
      · exact h0
    rw [offset_eq_error hnonneg hfail] at hcompile
    rw [outcome_of_error hcompile, (cause_of_compile hc.positive hs hcompile).2]
    rfl

theorem outcome_ne_panic (h0 : 0 ≤ c.declaredTicks s) : c.outcome s ≠ .error none := by
  intro hpanic
  by_cases hlimit : max (c.declaredTicks s) (c.lastTick s) ≤ maxProgramTicks
  · obtain ⟨p, hp⟩ := exists_compile_of_within hc hs h0 hlimit
    rw [outcome_of_ok hp] at hpanic
    cases hpanic
  · rw [outcome_of_beyond hc hs h0 (Int.not_le.1 hlimit)] at hpanic
    cases hpanic

end

/-- **When a compilation fails.** If it does not panic, it fails exactly if the declared ticks or
those of a switch exceed the limit.  The error gives the limit and the smallest ticks of a switch
beyond it, or the declared ticks if there is none, as an exact difference of two ticks that is never
too large to be reported. -/
theorem compile_refused {c : Compiler} (hc : c.Accepted) {s : Sequence} (hs : s.Reachable)
    (hpanic : c.outcome s ≠ .error none) :
    ((∃ e, c.compile s = .error e) ↔
      (maxProgramTicks : Int) < max (c.declaredTicks s) (c.lastTick s)) ∧
    ∀ e, c.compile s = .error e → ∃ requested : Nat,
      e = .invalid (.resourceLimit "program ticks" maxProgramTicks requested) ∧
      (requested : Int) = c.excessTicks s ∧
      (∃ t, ((∃ ch ∈ s.channels, t ∈ ch.switches) ∨ t = c.declaredEnd s) ∧
        (requested : Int) = c.quantize t - c.quantize s.startTime) ∧
      maxProgramTicks < requested ∧ requested ≤ maxReportedTicks := by
  have hw := hs.wellFormed
  constructor
  · constructor
    · rintro ⟨e, he⟩
      obtain ⟨cause, rfl⟩ := invalid_of_compile hpanic he
      have hlimit := (cause_of_compile hc.positive hw he).1
      rw [limit_lt_max_iff]
      rcases excessTicks_cases c s with hmem | heq
      · exact .inr ⟨_, hmem, hlimit⟩
      · rw [heq] at hlimit
        exact .inl hlimit
    · intro hlimit
      cases hcompile : c.compile s with
      | ok p =>
        have := declaredTicks_within hcompile
        have := lastTick_within hcompile
        omega
      | error e => exact ⟨e, rfl⟩
  · intro e he
    obtain ⟨cause, rfl⟩ := invalid_of_compile hpanic he
    obtain ⟨hlimit, rfl⟩ := cause_of_compile hc.positive hw he
    have hcast : ((c.excessTicks s).toNat : Int) = c.excessTicks s := by omega
    have htime := c.exists_time_of_excessTicks s
    refine ⟨_, rfl, hcast, by rwa [hcast], by omega, ?_⟩
    obtain ⟨t, -, hticks⟩ := htime
    have ht := quantize_bounds c t
    have hstart := quantize_bounds c s.startTime
    unfold maxReportedTicks
    omega

/-- One switch lies before the first tick that can be counted and one after the last.  The switch
between them is reported, though its channel has the higher number, and in spite of the cut the
difference is exact. -/
theorem compile_refused_saturated :
    let s := [Edit.switch 1 (.ofInt (-(10 ^ 300))), .switch 0 (.ofNat (10 ^ 300)),
        .switch 1 (.ofNat 3)].foldl Sequence.attempt
      ⟨[Channel.resting false, Channel.resting false], Binary64.zero, Binary64.zero⟩
    s.Reachable ∧ (default : Compiler).switchTicks s = [2 ^ 64 - 1, 0, 2 ^ 63 + 3 * 10 ^ 8] ∧
      (default : Compiler).outcome s ≠ .error none ∧
      (default : Compiler).compile s = .error (.invalid
        (.resourceLimit "program ticks" maxProgramTicks (2 ^ 63 + 3 * 10 ^ 8))) := by
  intro s
  have hs : s.Reachable := .attempt _ (.attempt _ (.attempt _ (.ofCount (n := 2) rfl)))
  have hticks : (default : Compiler).switchTicks s = [2 ^ 64 - 1, 0, 2 ^ 63 + 3 * 10 ^ 8] := by
    decide +kernel
  have hdeclared : (default : Compiler).declaredTicks s = 2 ^ 64 - 1 := by decide +kernel
  have hexcess : (default : Compiler).excessTicks s = 2 ^ 63 + 3 * 10 ^ 8 := by
    rw [excessTicks, hticks]
    rfl
  have hpanic : (default : Compiler).outcome s ≠ .error none :=
    outcome_ne_panic .default hs.wellFormed (by rw [hdeclared]; decide)
  obtain ⟨hiff, hreport⟩ := compile_refused .default hs hpanic
  obtain ⟨e, he⟩ := hiff.2 (limit_lt_max_iff.2 (.inl (by rw [hdeclared]; decide)))
  obtain ⟨requested, rfl, hrequested, -⟩ := hreport e he
  rw [hexcess] at hrequested
  obtain rfl : requested = 2 ^ 63 + 3 * 10 ^ 8 := by omega
  exact ⟨hs, hticks, hpanic, he⟩

end Compiler

end PulseSequencer
