import PulseSequencer.Device.Session
import PulseSequencer.Proofs.Validation

/-!
What a session can do.

A log lists calls with the answers of the device, and `Answers` says that a device gives those
answers as it goes from one state to another.  Between the steps of a session its guard tells
whether it has been closed (`Session.Held`), so a session that is opened is closed once, whatever
its script and the device do: `hold_sessions`.

`session_log` says what comes of calls that must succeed: the session is refused, or a call fails
and the session is closed, or all calls succeed and closing it decides.  A plan of calls from the
opening to the closing one is therefore followed up to the first failure (`SessionLog.followed`).
-/

namespace PulseSequencer

/-- A call and how the device answered it. -/
abbrev Entry := Call × Except TransportError Word

/-- The entry of a call that was answered with a word. -/
def Entry.accepted (x : Call × Word) : Entry := (x.1, .ok x.2)

@[simp] theorem Entry.accepted_fst (x : Call × Word) : (accepted x).1 = x.1 := rfl

@[simp] theorem Entry.accepted_snd (x : Call × Word) : (accepted x).2 = .ok x.2 := rfl

theorem Entry.after_accepted (done : List (Call × Word)) {rest pre post : List Entry} {c : Call}
    {err : TransportError}
    (h : done.map accepted ++ rest = pre ++ (c, .error err) :: post) :
    ∃ mid, pre = done.map accepted ++ mid ∧ rest = mid ++ (c, .error err) :: post := by
  induction done generalizing pre with
  | nil => exact ⟨pre, rfl, h⟩
  | cons x done ih =>
    cases pre with
    | nil => cases h
    | cons y pre =>
      simp only [List.map_cons, List.cons_append, List.cons.injEq] at h
      obtain ⟨rfl, h⟩ := h
      obtain ⟨mid, rfl, hrest⟩ := ih h
      exact ⟨mid, rfl, hrest⟩

namespace Device

variable {σ : Type} {d : Device σ}

/-- The device gives the answers of a log to its calls, one after another, on its way from one
state to another. -/
inductive Answers (d : Device σ) : σ → List Entry → σ → Prop
  | nil {s} : Answers d s [] s
  | cons {s c answer s' log s''} : d.respond c s = (answer, s') → Answers d s' log s'' →
      Answers d s ((c, answer) :: log) s''

theorem Answers.one {s s' : σ} {c : Call} {answer : Except TransportError Word}
    (h : d.respond c s = (answer, s')) : d.Answers s [(c, answer)] s' := .cons h .nil

theorem Answers.append {s s' s'' : σ} {log log' : List Entry} (h : d.Answers s log s')
    (h' : d.Answers s' log' s'') : d.Answers s (log ++ log') s'' := by
  induction h with
  | nil => exact h'
  | cons hc _ ih => exact .cons hc (ih h')

theorem Answers.det {s s₁ s₂ : σ} {log₁ log₂ : List Entry} (h₁ : d.Answers s log₁ s₁)
    (h₂ : d.Answers s log₂ s₂) (hcalls : log₁.map Prod.fst = log₂.map Prod.fst) :
    log₁ = log₂ ∧ s₁ = s₂ := by
  induction h₁ generalizing log₂ s₂ with
  | nil =>
    cases h₂ with
    | nil => exact ⟨rfl, rfl⟩
    | cons => simp at hcalls
  | cons hc _ ih =>
    cases h₂ with
    | nil => simp at hcalls
    | cons hc' h₂ =>
      simp only [List.map_cons, List.cons.injEq] at hcalls
      obtain ⟨rfl, hcalls⟩ := hcalls
      rw [hc] at hc'
      cases hc'
      obtain ⟨rfl, rfl⟩ := ih h₂ hcalls
      exact ⟨rfl, rfl⟩

end Device

/-! ## Steps -/

namespace Session

variable {σ α : Type} {d : Device σ}

theorem run_of_step_inr {m m' : Session σ α} (h : m.step d = .inr m') : m.run d = m'.run d := by
  rw [run]
  split
  · rename_i heq
    rw [h] at heq
    cases heq
  · rename_i heq
    rw [h] at heq
    cases heq
    rfl

theorem run_of_step_inl {m : Session σ α} {e : Exchange σ α} (h : m.step d = .inl e) :
    m.run d = e := by
  rw [run]
  split
  · rename_i heq
    rw [h] at heq
    cases heq
    rfl
  · rename_i heq
    rw [h] at heq
    cases heq

theorem run_call {c : Call} {next : Except TransportError Word → Script α} {guard : Guard}
    {calls : List Call} {s s' : σ} {answer : Except TransportError Word}
    (h : d.respond c s = (answer, s')) :
    run d ⟨.call c next, guard, calls, s⟩ = run d ⟨next answer, guard, c :: calls, s'⟩ :=
  run_of_step_inr (by simp only [step, h])

/-- A session that is finished is closed there and not again when the guard is dropped. -/
theorem run_finish {next : Except TransportError Word → Except TransportError α} {guard : Guard}
    {calls : List Call} {s s' : σ} {answer : Except TransportError Word}
    (h : d.respond .close s = (answer, s')) :
    run d ⟨.finish next, guard, calls, s⟩ = ⟨next answer, (Call.close :: calls).reverse, s'⟩ := by
  have hfinish : step d ⟨.finish next, guard, calls, s⟩ =
      .inr ⟨.leave (next answer), { guard with closed := true }, .close :: calls, s'⟩ := by
    simp only [step, Guard.finish, h]
  rw [run_of_step_inr hfinish]
  exact run_of_step_inl (by simp [step, Guard.drop])

theorem run_leave {result : Except TransportError α} {calls : List Call} {s s' : σ}
    {answer : Except TransportError Word} (h : d.respond .close s = (answer, s')) :
    run d ⟨.leave result, {}, calls, s⟩ = ⟨result, (Call.close :: calls).reverse, s'⟩ :=
  run_of_step_inl (by simp [step, Guard.drop, h])

end Session

/-! ## One closing call -/

/-- A call of a session that neither opens nor closes it. -/
def Call.Inner : Call → Prop
  | .openSession .. => False
  | .close => False
  | _ => True

/-- A script that leaves it to the guard to close the session. -/
def Script.Inner {α : Type} : Script α → Prop
  | .call c next => c.Inner ∧ ∀ answer, (next answer).Inner
  | .finish _ => True
  | .leave _ => True

theorem Script.inner_require {α : Type} {calls : List Call} (h : ∀ c ∈ calls, c.Inner)
    (f : List Word → α) : (require calls f).Inner := by
  induction calls generalizing f with
  | nil => trivial
  | cons c calls ih =>
    obtain ⟨hc, hcalls⟩ := List.forall_mem_cons.1 h
    refine ⟨hc, fun answer => ?_⟩
    cases answer with
    | error err => trivial
    | ok w => exact ih hcalls _

/-- The log of a session that is closed once, by its last call. -/
def ClosedOnce (log : List Entry) : Prop :=
  ∃ inner closing, log = inner ++ [(.close, closing)] ∧ ∀ x ∈ inner, x.1.Inner

namespace Session

variable {σ α : Type} {d : Device σ} {made : List Call} {s : σ} {m : Session σ α}
  {log : List Entry}

/-- What holds between the steps of a session: `made` are the calls before it and `log` is the log
of its own.  Its guard tells whether it has been closed. -/
structure Held (d : Device σ) (made : List Call) (s : σ) (m : Session σ α) (log : List Entry) :
    Prop where
  answers : d.Answers s log m.state
  calls : m.calls = (log.map Prod.fst).reverse ++ made
  guard : m.guard.closed = false ∧ (∀ x ∈ log, x.1.Inner) ∧ m.script.Inner ∨
    m.guard.closed = true ∧ ClosedOnce log ∧ ∃ result, m.script = .leave result

/-- A step makes one call: one of the session while the guard is open, or the one that closes it,
and then only the guard is left to be dropped. -/
theorem Held.step {m' : Session σ α} (h : Held d made s m log) (hstep : m.step d = .inr m') :
    ∃ x, Held d made s m' (log ++ [x]) := by
  obtain ⟨script, guard, calls, state⟩ := m
  obtain ⟨hans, hcalls, hguard⟩ := h
  dsimp only at hans hcalls hguard
  cases script with
  | call c next =>
    cases hstep
    rcases hguard with ⟨hopen, hlog, hc, hnext⟩ | ⟨-, -, result, hleave⟩
    · refine ⟨(c, (d.respond c state).1), hans.append (.one rfl), ?_, .inl ⟨hopen, ?_, hnext _⟩⟩
      · simp [hcalls]
      · exact List.forall_mem_append.2 ⟨hlog, by simpa using hc⟩
    · cases hleave
  | finish next =>
    cases hstep
    rcases hguard with ⟨-, hlog, -⟩ | ⟨-, -, result, hleave⟩
    · refine ⟨(.close, (d.respond .close state).1), hans.append (.one rfl), ?_,
        .inr ⟨rfl, ⟨log, _, rfl, hlog⟩, _, rfl⟩⟩
      simp [hcalls]
    · cases hleave
  | leave result => cases hstep

theorem Held.drop {e : Exchange σ α} (h : Held d made s m log) (hstep : m.step d = .inl e) :
    ∃ log', d.Answers s log' e.state ∧ e.calls = made.reverse ++ log'.map Prod.fst ∧
      ClosedOnce log' := by
  obtain ⟨script, ⟨closed⟩, calls, state⟩ := m
  obtain ⟨hans, hcalls, hguard⟩ := h
  dsimp only at hans hcalls hguard
  cases script with
  | call c next => cases hstep
  | finish next => cases hstep
  | leave result =>
    rcases hguard with ⟨rfl, hlog, -⟩ | ⟨rfl, honce, -⟩
    · cases hstep
      refine ⟨log ++ [(.close, (d.respond .close state).1)], hans.append (.one rfl), ?_,
        log, _, rfl, hlog⟩
      simp [hcalls]
    · cases hstep
      refine ⟨log, hans, ?_, honce⟩
      simp [hcalls]

theorem Held.run (h : Held d made s m log) :
    ∃ log', d.Answers s log' (m.run d).state ∧
      (m.run d).calls = made.reverse ++ log'.map Prod.fst ∧ ClosedOnce log' := by
  fun_induction Session.run d m generalizing log with
  | case1 m e hstep => exact h.drop hstep
  | case2 m m' hstep ih =>
    obtain ⟨x, hx⟩ := h.step hstep
    exact ih hx

end Session

/-- A log of attempts to open a session, each of which fails or is followed by calls of the session
and the one that closes it. -/
inductive Sessions : List Entry → Prop
  | nil : Sessions []
  | refused {resource bitfile err rest} : Sessions rest →
      Sessions ((.openSession resource bitfile, .error err) :: rest)
  | session {resource bitfile w inner closing rest} : (∀ x ∈ inner, x.1.Inner) → Sessions rest →
      Sessions ((.openSession resource bitfile, .ok w) :: inner ++ (.close, closing) :: rest)

theorem Sessions.append {log log' : List Entry} (h : Sessions log) (h' : Sessions log') :
    Sessions (log ++ log') := by
  induction h with
  | nil => exact h'
  | refused _ ih => exact .refused ih
  | session hinner _ ih =>
    rw [List.append_assoc]
    exact .session hinner ih

/-- **A session that is opened is closed once**, by its last call, whatever the script and the
device do. -/
theorem Device.hold_sessions {σ α : Type} (d : Device σ) (resource : String)
    (bitfile : Option String) {script : Script α} (hscript : script.Inner) (s : σ) :
    ∃ log, d.Answers s log (d.hold resource bitfile script s).state ∧
      (d.hold resource bitfile script s).calls = log.map Prod.fst ∧ Sessions log := by
  rw [hold]
  cases hopen : d.respond (.openSession resource bitfile) s with
  | mk answer s' =>
  cases answer with
  | error err => exact ⟨_, .one hopen, rfl, .refused .nil⟩
  | ok w =>
    dsimp only
    have hstart : Session.Held d [.openSession resource bitfile] s'
        { script, calls := [.openSession resource bitfile], state := s' } [] :=
      ⟨.nil, rfl, .inl ⟨rfl, by simp, hscript⟩⟩
    obtain ⟨log, hans, hcalls, inner, closing, rfl, hinner⟩ := hstart.run
    exact ⟨_, .cons hopen hans, hcalls, .session hinner .nil⟩

/-! ## Calls that must succeed -/

/-- What can come of calls in a session of their own: its log and its result. -/
inductive SessionLog (opening : Call) (calls : List Call) :
    List Entry → Except TransportError (List Word) → Prop
  /-- the session is not opened -/
  | refused (err) : SessionLog opening calls [(opening, .error err)] (.error err)
  /-- a call fails and the session is closed; how that ends does not count -/
  | broken {done : List (Call × Word)} {c later} (w err closing) :
      calls = done.map Prod.fst ++ c :: later →
      SessionLog opening calls
        ((opening, .ok w) :: done.map Entry.accepted ++ [(c, .error err), (.close, closing)])
        (.error err)
  /-- all calls succeed, and how the session is closed counts -/
  | closed {done : List (Call × Word)} (w closing) : calls = done.map Prod.fst →
      SessionLog opening calls
        ((opening, .ok w) :: done.map Entry.accepted ++ [(.close, closing)])
        (closing.map fun _ => done.map Prod.snd)

/-- Calls in a row all succeed, or end with the first that fails; the session is closed after
them. -/
theorem Session.run_require {σ α : Type} (d : Device σ) (calls : List Call) (f : List Word → α)
    (made : List Call) (s : σ) :
    let e := run d ⟨.require calls f, {}, made, s⟩
    (∃ (done : List (Call × Word)) (closing : Except TransportError Word),
      calls = done.map Prod.fst ∧
      d.Answers s (done.map Entry.accepted ++ [(.close, closing)]) e.state ∧
      e.calls = made.reverse ++ (done.map Prod.fst ++ [.close]) ∧
      e.result = closing.map fun _ => f (done.map Prod.snd)) ∨
    ∃ (done : List (Call × Word)) (c : Call) (err : TransportError) (later : List Call)
      (closing : Except TransportError Word), calls = done.map Prod.fst ++ c :: later ∧
      d.Answers s (done.map Entry.accepted ++ [(c, .error err), (.close, closing)]) e.state ∧
      e.calls = made.reverse ++ (done.map Prod.fst ++ [c, .close]) ∧ e.result = .error err := by
  induction calls generalizing f made s with
  | nil =>
    cases hclose : d.respond .close s with
    | mk closing s' =>
    dsimp only
    rw [Script.require, run_finish hclose]
    exact .inl ⟨[], closing, rfl, .one hclose, by simp, rfl⟩
  | cons c calls ih =>
    cases hc : d.respond c s with
    | mk answer s' =>
    dsimp only
    rw [Script.require, run_call hc]
    cases answer with
    | error err =>
      cases hclose : d.respond .close s' with
      | mk closing s'' =>
      dsimp only
      rw [run_leave hclose]
      exact .inr ⟨[], c, err, calls, closing, rfl, .cons hc (.one hclose), by simp, rfl⟩
    | ok w =>
      dsimp only
      rcases ih (fun words => f (w :: words)) (c :: made) s' with
        ⟨done, closing, hplan, hans, hcalls, hres⟩ |
        ⟨done, c', err, later, closing, hplan, hans, hcalls, hres⟩
      · refine .inl ⟨(c, w) :: done, closing, ?_, .cons hc hans, ?_, hres⟩
        · rw [List.map_cons, ← hplan]
        · simpa using hcalls
      · refine .inr ⟨(c, w) :: done, c', err, later, closing, ?_, .cons hc hans, ?_, hres⟩
        · rw [hplan]
          rfl
        · simpa using hcalls

/-- **What comes of a session**, whatever the device does. -/
theorem Device.session_log {σ : Type} (d : Device σ) (resource : String) (bitfile : Option String)
    (calls : List Call) (s : σ) :
    ∃ log, d.Answers s log (d.session resource bitfile calls s).state ∧
      (d.session resource bitfile calls s).calls = log.map Prod.fst ∧
      SessionLog (.openSession resource bitfile) calls log
        (d.session resource bitfile calls s).result := by
  rw [Device.session, hold]
  cases hopen : d.respond (.openSession resource bitfile) s with
  | mk answer s' =>
  cases answer with
  | error err => exact ⟨_, .one hopen, rfl, .refused err⟩
  | ok w =>
    dsimp only
    rcases Session.run_require d calls id [.openSession resource bitfile] s' with
      ⟨done, closing, hplan, hans, hcalls, hres⟩ |
      ⟨done, c, err, later, closing, hplan, hans, hcalls, hres⟩
    · refine ⟨_, .cons hopen hans, ?_, ?_⟩
      · rw [hcalls]
        simp
      · rw [hres]
        exact .closed w closing hplan
    · refine ⟨_, .cons hopen hans, ?_, ?_⟩
      · rw [hcalls]
        simp
      · rw [hres]
        exact .broken w err closing hplan

/-- A plan of calls, of which the first opens a session and the last closes it, is followed up to
the first that fails; a session that is open by then is closed. -/
inductive Followed (plan : List Call) : List Entry → Prop
  | whole {done : List (Call × Word)} : plan = done.map Prod.fst →
      Followed plan (done.map Entry.accepted)
  | first {c later} (err) : plan = c :: later → Followed plan [(c, .error err)]
  | between {done : List (Call × Word)} {c later} (err closing) :
      plan = done.map Prod.fst ++ c :: later → done ≠ [] → later ≠ [] →
      Followed plan (done.map Entry.accepted ++ [(c, .error err), (.close, closing)])
  | last {done : List (Call × Word)} {c} (err) : plan = done.map Prod.fst ++ [c] → done ≠ [] →
      Followed plan (done.map Entry.accepted ++ [(c, .error err)])

namespace SessionLog

variable {opening : Call} {calls : List Call} {log : List Entry}
  {result : Except TransportError (List Word)}

theorem followed (h : SessionLog opening calls log result) :
    Followed (opening :: calls ++ [.close]) log := by
  cases h with
  | refused err => exact .first err rfl
  | @broken done c later w err closing hplan =>
    refine @Followed.between _ ((opening, w) :: done) c (later ++ [.close]) err closing
      ?_ (by simp) (by simp)
    rw [hplan]
    simp
  | @closed done w closing hplan =>
    cases closing with
    | error err =>
      refine @Followed.last _ ((opening, w) :: done) .close err ?_ (by simp)
      rw [hplan]
      rfl
    | ok v =>
      have := @Followed.whole (opening :: calls ++ [.close]) ((opening, w) :: done ++ [(.close, v)])
        (by rw [hplan]; simp)
      simpa [Entry.accepted] using this

theorem succeeded (h : SessionLog opening calls log result) {answers : List Word}
    (hok : result = .ok answers) :
    ∃ (done : List (Call × Word)) (w v : Word), calls = done.map Prod.fst ∧
      answers = done.map Prod.snd ∧
      log = ((opening, w) :: done ++ [(Call.close, v)]).map Entry.accepted := by
  cases h with
  | refused err => cases hok
  | broken w err closing hplan => cases hok
  | @closed done w closing hplan =>
    obtain ⟨v, rfl, rfl⟩ := Except.map_eq_ok.1 hok
    exact ⟨done, w, v, hplan, rfl, by simp [Entry.accepted]⟩

theorem ok_iff (h : SessionLog opening calls log result) :
    (∃ answers, result = .ok answers) ↔ ∀ x ∈ log, ∃ w, x.2 = .ok w := by
  constructor
  · intro ⟨answers, hok⟩ x hx
    obtain ⟨done, w, v, -, -, rfl⟩ := h.succeeded hok
    obtain ⟨y, -, rfl⟩ := List.mem_map.1 hx
    exact ⟨y.2, rfl⟩
  · intro hall
    cases h with
    | refused err =>
      obtain ⟨v, hv⟩ := hall (opening, .error err) (by simp)
      cases hv
    | @broken done c later w err closing hplan =>
      obtain ⟨v, hv⟩ := hall (c, .error err) (by simp)
      cases hv
    | @closed done w closing hplan =>
      obtain ⟨v, hv⟩ := hall (.close, closing) (by simp)
      cases hv
      exact ⟨_, rfl⟩

/-- **Where a session fails**: at the opening, with nothing after it; at one of its calls, with the
closing one after it; or at the closing one, which counts if nothing failed before. -/
theorem at_failure (h : SessionLog opening calls log result) {pre post : List Entry} {c : Call}
    {err : TransportError} (hlog : log = pre ++ (c, .error err) :: post) :
    (pre = [] ∧ post = [] ∧ result = .error err) ∨
    (∃ (done : List (Call × Word)) (later : List Call) (w : Word)
      (closing : Except TransportError Word), calls = done.map Prod.fst ++ c :: later ∧
      pre = (opening, .ok w) :: done.map Entry.accepted ∧ post = [(.close, closing)] ∧
      result = .error err) ∨
    (c = .close ∧ post = [] ∧ ((∀ x ∈ pre, ∃ w, x.2 = .ok w) → result = .error err)) := by
  cases h with
  | refused err' =>
    cases pre with
    | nil =>
      cases hlog
      exact .inl ⟨rfl, rfl, rfl⟩
    | cons => simp at hlog
  | @broken done c' later w err' closing hplan =>
    obtain ⟨mid, rfl, hrest⟩ := Entry.after_accepted ((opening, w) :: done) hlog
    match mid with
    | [] =>
      cases hrest
      exact .inr (.inl ⟨done, later, w, closing, hplan, by simp [Entry.accepted], rfl, rfl⟩)
    | [x] =>
      cases hrest
      refine .inr (.inr ⟨rfl, rfl, fun hpre => ?_⟩)
      -- The call before it has failed already.
      obtain ⟨v, hv⟩ := hpre (c', .error err') (by simp)
      cases hv
    | x :: y :: mid => simp at hrest
  | @closed done w closing hplan =>
    obtain ⟨mid, -, hrest⟩ := Entry.after_accepted ((opening, w) :: done) hlog
    match mid with
    | [] =>
      cases hrest
      exact .inr (.inr ⟨rfl, rfl, fun _ => rfl⟩)
    | x :: mid => simp at hrest

/-- Where a call of the session itself fails, those before it succeeded and only the closing one
follows. -/
theorem failed (h : SessionLog opening calls log result) {k : Nat} {c : Call}
    {err : TransportError} (hat : log[k + 1]? = some (c, .error err)) (hc : c ≠ .close) :
    ∃ (done : List (Call × Word)) (later : List Call) (w : Word)
      (closing : Except TransportError Word), calls = done.map Prod.fst ++ c :: later ∧
      done.length = k ∧ log = (opening, .ok w) :: done.map Entry.accepted ++
        [(c, .error err), (.close, closing)] := by
  obtain ⟨hlt, hget⟩ := List.getElem?_eq_some_iff.1 hat
  have hlog : log = log.take (k + 1) ++ (c, .error err) :: log.drop (k + 2) := by
    rw [← hget, ← List.drop_eq_getElem_cons hlt, List.take_append_drop]
  have hlen : (log.take (k + 1)).length = k + 1 := by
    rw [List.length_take]
    omega
  rcases h.at_failure hlog with ⟨hpre, -⟩ | ⟨done, later, w, closing, hplan, hpre, hpost, -⟩ |
    ⟨hclose, -⟩
  · rw [hpre] at hlen
    cases hlen
  · rw [hpre] at hlen
    refine ⟨done, later, w, closing, hplan, by simpa using hlen, ?_⟩
    rw [hlog, hpre, hpost]
  · exact absurd hclose hc

end SessionLog

/-! ## Calls that may fail -/

theorem Session.run_attempt {σ α : Type} (d : Device σ) (calls : List Call) (finish : Bool)
    (f : List (Except TransportError Word) → α) (made : List Call) (s : σ) :
    ∃ (answers : List (Except TransportError Word)) (closing : Except TransportError Word),
      answers.length = calls.length ∧
      d.Answers s (calls.zip answers ++ [(.close, closing)])
        (run d ⟨.attempt finish calls f, {}, made, s⟩).state ∧
      (run d ⟨.attempt finish calls f, {}, made, s⟩).calls = made.reverse ++ (calls ++ [.close]) ∧
      (run d ⟨.attempt finish calls f, {}, made, s⟩).result =
        .ok (f (if finish then answers ++ [closing] else answers)) := by
  induction calls generalizing f made s with
  | nil =>
    cases hclose : d.respond .close s with
    | mk closing s' =>
    refine ⟨[], closing, rfl, ?_⟩
    cases finish with
    | true =>
      rw [Script.attempt, if_pos rfl, run_finish hclose]
      exact ⟨.one hclose, by simp, rfl⟩
    | false =>
      rw [Script.attempt, if_neg nofun, run_leave hclose]
      exact ⟨.one hclose, by simp, rfl⟩
  | cons c calls ih =>
    cases hc : d.respond c s with
    | mk answer s' =>
    rw [Script.attempt, run_call hc]
    obtain ⟨answers, closing, hlen, hans, hcalls, hres⟩ :=
      ih (fun answers => f (answer :: answers)) (c :: made) s'
    refine ⟨answer :: answers, closing, by simp [hlen], .cons hc hans, by simpa using hcalls, ?_⟩
    rw [hres]
    cases finish <;> rfl

/-- **A session whose calls may fail** is opened, makes all of them and is closed.  How it was
closed is told only by `finish`. -/
theorem Device.attemptSession_log {σ : Type} (d : Device σ) (resource : String)
    (calls : List Call) (finish : Bool) (s : σ) :
    let e := d.attemptSession resource calls finish s
    (∃ err, d.Answers s [(.openSession resource none, .error err)] e.state ∧
      e.calls = [.openSession resource none] ∧ e.result = .error err) ∨
    ∃ (w : Word) (answers : List (Except TransportError Word))
      (closing : Except TransportError Word), answers.length = calls.length ∧
      d.Answers s ((.openSession resource none, .ok w) :: calls.zip answers ++ [(.close, closing)])
        e.state ∧
      e.calls = .openSession resource none :: calls ++ [.close] ∧
      e.result = .ok (if finish then answers ++ [closing] else answers) := by
  dsimp only
  rw [attemptSession, hold]
  cases hopen : d.respond (.openSession resource none) s with
  | mk answer s' =>
  cases answer with
  | error err => exact .inl ⟨err, .one hopen, rfl, rfl⟩
  | ok w =>
    obtain ⟨answers, closing, hlen, hans, hcalls, hres⟩ :=
      Session.run_attempt d calls finish id [.openSession resource none] s'
    exact .inr ⟨w, answers, closing, hlen, .cons hopen hans, hcalls, hres⟩

end PulseSequencer
