import PulseSequencer.Validation

/-!
When a check passes: one lemma for each check, and how checks in a row are taken apart.
-/

namespace PulseSequencer

theorem Except.bind_eq_ok {ε α β} {x : Except ε α} {f : α → Except ε β} {b : β} :
    (x >>= f) = .ok b ↔ ∃ a, x = .ok a ∧ f a = .ok b := by
  cases x with
  | error e => simp [bind, Except.bind]
  | ok a => simp [bind, Except.bind]

theorem Except.pure_eq_ok {ε α} {a b : α} : (pure a : Except ε α) = .ok b ↔ b = a := by
  simp only [pure, Except.pure, Except.ok.injEq]
  exact eq_comm

theorem Except.stop_eq_ok {ε α β} {p : Prop} [Decidable p] {e : ε} {f : α → Except ε β}
    {rest : Except ε β} {b : β} :
    (if p then throw e >>= f else rest) = .ok b ↔ ¬ p ∧ rest = .ok b := by
  split
  · simp [throw, throwThe, MonadExceptOf.throw, bind, Except.bind, *]
  · simp [*]

theorem Except.map_eq_ok {ε α β} {x : Except ε α} {f : α → β} {b : β} :
    x.map f = .ok b ↔ ∃ a, x = .ok a ∧ f a = b := by
  cases x with
  | error e => simp [Except.map]
  | ok a => simp [Except.map]

theorem Except.eq_ok_of_toOption {ε α} {x : Except ε α} {a : α} (h : x.toOption = some a) :
    x = .ok a := by
  cases x with
  | error e => cases h
  | ok b => cases h; rfl

theorem Except.bind_eq_error {ε α β} {x : Except ε α} {f : α → Except ε β} {e : ε} :
    (x >>= f) = .error e ↔ x = .error e ∨ ∃ a, x = .ok a ∧ f a = .error e := by
  cases x with
  | error e => simp [bind, Except.bind]
  | ok a => simp [bind, Except.bind]

theorem Except.foldlM_keeps {ε α β} {f : β → α → Except ε β} {I : β → Prop}
    (hstep : ∀ {a b b'}, I b → f b a = .ok b' → I b') :
    ∀ {l : List α} {b r : β}, I b → l.foldlM f b = .ok r → I r
  | [], b, r, hb, h => by
    obtain rfl := Except.pure_eq_ok.1 h
    exact hb
  | a :: l, b, r, hb, h => by
    rw [List.foldlM_cons, Except.bind_eq_ok] at h
    obtain ⟨b', ha, h⟩ := h
    exact foldlM_keeps hstep (hstep hb ha) h

theorem Except.pure_ne_error {ε α} {a : α} {e : ε} : (pure a : Except ε α) ≠ .error e := nofun

theorem Except.mapM_eq_error_first {ε α β} {f : α → Except ε β} {e : ε} :
    ∀ {l : List α}, l.mapM f = .error e →
      ∃ before a after, l = before ++ a :: after ∧ (∀ b ∈ before, ∃ v, f b = .ok v) ∧
        f a = .error e
  | [], h => absurd h Except.pure_ne_error
  | a :: l, h => by
    rw [List.mapM_cons, Except.bind_eq_error] at h
    rcases h with ha | ⟨v, hv, h⟩
    · exact ⟨[], a, l, rfl, by simp, ha⟩
    · rcases Except.bind_eq_error.1 h with hl | ⟨vs, -, h⟩
      · obtain ⟨before, a', after, rfl, hbefore, ha'⟩ := mapM_eq_error_first hl
        refine ⟨a :: before, a', after, rfl, ?_, ha'⟩
        exact List.forall_mem_cons.2 ⟨⟨v, hv⟩, hbefore⟩
      · exact absurd h Except.pure_ne_error

theorem Except.mapM_eq_error {ε α β} {f : α → Except ε β} {e : ε} {l : List α}
    (h : l.mapM f = .error e) : ∃ a ∈ l, f a = .error e := by
  obtain ⟨before, a, after, rfl, -, ha⟩ := mapM_eq_error_first h
  exact ⟨a, by simp, ha⟩

namespace Validation

theorem time_eq_ok {field : String} {t : Binary64} {u : Unit} :
    time field t = .ok u ↔ t.isFinite = true := by
  unfold time
  split <;> simp_all

theorem channelCount_eq_ok {n : Nat} {u : Unit} :
    channelCount n = .ok u ↔ 0 < n ∧ n ≤ maxChannels := by
  unfold channelCount
  split
  · simp; omega
  · split
    · simp; omega
    · simp; omega

theorem channel_eq_ok {i n : Nat} {u : Unit} : channel i n = .ok u ↔ i < n := by
  unfold channel
  split <;> simp_all

theorem timeUnless_eq_ok {field : String} {t : Binary64} {p : Prop} [Decidable p]
    {e : ValidationError} {u : Unit} :
    (time field t >>= fun _ => if p then .error e else pure ()) = .ok u ↔
      t.isFinite = true ∧ ¬ p := by
  rw [Except.bind_eq_ok]
  simp only [time_eq_ok]
  constructor
  · rintro ⟨-, hf, h⟩
    split at h
    · cases h
    · exact ⟨hf, by assumption⟩
  · rintro ⟨hf, h⟩
    exact ⟨(), hf, by rw [if_neg h]; rfl⟩

theorem duration_eq_ok {d : Binary64} {u : Unit} :
    duration d = .ok u ↔ d.isFinite = true ∧ ¬ d ≤ Binary64.zero := timeUnless_eq_ok

theorem delay_eq_ok {d : Binary64} {u : Unit} :
    delay d = .ok u ↔ d.isFinite = true ∧ ¬ d < Binary64.zero := timeUnless_eq_ok

theorem programDuration_eq_ok {d : Binary64} {u : Unit} :
    programDuration d = .ok u ↔ d.isFinite = true ∧ ¬ d < Binary64.zero := timeUnless_eq_ok

theorem clockPeriod_eq_ok {dt : Binary64} {u : Unit} :
    clockPeriod dt = .ok u ↔ dt.isFinite = true ∧ Binary64.zero < dt := by
  unfold clockPeriod
  split <;> simp_all

end Validation
end PulseSequencer
