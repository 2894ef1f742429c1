import PulseSequencer.Proofs.Upload

/-!
Sessions over runs of operations.

Each operation of a generator has a session of its own.  `operate_log` says what one operation does:
its log is that of one session, or empty if a program has too many words, and its result is that of
the first failing call, or else of the closing one.  A run of operations is an induction from there
(`Run.lawful`): every session that is opened is closed exactly once, before the next one is opened.
-/

namespace PulseSequencer

/-! ## One session -/

namespace SessionLog

variable {opening : Call} {calls : List Call} {log : List Entry}
  {result : Except TransportError (List Word)}

theorem final_closing (h : SessionLog opening calls log result) (hopen : opening ≠ .close)
    {pre : List Entry} {answer : Except TransportError Word}
    (hlog : log = pre ++ [(.close, answer)]) (hpre : ∀ x ∈ pre, ∃ w, x.2 = .ok w) :
    ∃ answers, result = answer.map fun _ => answers := by
  cases h with
  | refused err =>
    cases pre with
    | nil => cases hlog; exact absurd rfl hopen
    | cons => simp at hlog
  | @broken done c later w err closing hplan =>
    have hsplit : ((opening, .ok w) :: done.map Entry.accepted ++ [(c, .error err)]) ++
        [(.close, closing)] = pre ++ [(.close, answer)] := by
      rw [List.append_assoc]
      exact hlog
    obtain ⟨rfl, -⟩ := List.append_inj' hsplit rfl
    obtain ⟨v, hv⟩ := hpre (c, .error err) (by simp)
    cases hv
  | @closed done w closing hplan =>
    obtain ⟨-, hanswer⟩ := List.append_inj' hlog rfl
    cases hanswer
    exact ⟨_, rfl⟩

theorem ne_nil (h : SessionLog opening calls log result) : log ≠ [] := by
  cases h <;> simp

end SessionLog

/-! ## Operations -/

/-- An operation of a generator. -/
inductive Operation where
  | start
  | program (p : Program)
  | runContinuous
  | runSingle
  | stop

/-- The program of an operation comes from the compiler. -/
def Operation.Compiled : Operation → Prop
  | .program p => ∃ (c : Compiler) (q : Sequence), c.compile q = .ok p
  | _ => True

/-- An operation with the log of its calls and its result. -/
structure Round where
  operation : Operation
  log : List Entry
  result : Except TransportError Unit

/-- What an operation does, wherever the device fails. -/
structure Round.Lawful (r : Round) : Prop where
  /-- a session that it opens is closed before it ends -/
  sessions : Sessions r.log
  /-- a failure is followed by nothing but the call that closes the session -/
  only_closing : ∀ pre c err post, r.log = pre ++ (c, .error err) :: post →
    post = [] ∨ ∃ closing, post = [(.close, closing)]
  /-- the result is the first failure, whether or not the session could be closed after it -/
  first_failure : ∀ pre c err post, r.log = pre ++ (c, .error err) :: post →
    (∀ x ∈ pre, ∃ w, x.2 = .ok w) → r.result = .error err
  /-- and if nothing failed before, that of closing the session -/
  final_closing : ∀ pre answer, r.log = pre ++ [(.close, answer)] →
    (∀ x ∈ pre, ∃ w, x.2 = .ok w) → r.result = answer.map fun _ => ()
  /-- only a program with more words than the device can count is refused without a call -/
  unopened : r.log = [] → ∃ p words, r.operation = .program p ∧ p.encode = .ok words ∧
    2 ^ 32 ≤ words.length ∧ ∃ text, r.result = .error (.writeFailed text)

theorem SessionLog.lawful {resource : String} {bitfile : Option String} {calls : List Call}
    {log : List Entry} {result : Except TransportError (List Word)}
    (h : SessionLog (.openSession resource bitfile) calls log result) (hsessions : Sessions log)
    (op : Operation) : Round.Lawful ⟨op, log, result.map fun _ => ()⟩ where
  sessions := hsessions
  only_closing _ _ _ _ hlog := by
    rcases h.at_failure hlog with ⟨-, hpost, -⟩ | ⟨-, -, -, closing, -, -, hpost, -⟩ | ⟨-, hpost, -⟩
    · exact .inl hpost
    · exact .inr ⟨closing, hpost⟩
    · exact .inl hpost
  first_failure _ _ err _ hlog hpre := by
    have hres : result = .error err := by
      rcases h.at_failure hlog with ⟨-, -, hres⟩ | ⟨-, -, -, -, -, -, -, hres⟩ | ⟨-, -, hres⟩
      · exact hres
      · exact hres
      · exact hres hpre
    show result.map _ = _
    rw [hres]
    rfl
  final_closing _ answer hlog hpre := by
    obtain ⟨answers, hres⟩ := h.final_closing nofun hlog hpre
    show result.map _ = _
    rw [hres]
    cases answer <;> rfl
  unopened hnil := absurd hnil h.ne_nil

theorem Exchange.map_map_unit {σ α β : Type} (e : Exchange σ α) (f : α → β) :
    (e.map f).map (fun _ => ()) = e.map fun _ => () := by
  cases e with
  | mk result calls state => cases result <;> rfl

namespace Generator

variable {σ : Type}

/-- What comes of an operation. -/
def operate (g : Generator) (d : Device σ) (s : σ) :
    Operation → Except WidePayload (Exchange σ Unit)
  | .start => .ok (g.start d s)
  | .program p => (g.program d p s).map (Exchange.map fun _ => ())
  | .runContinuous => .ok (g.runContinuous d s)
  | .runSingle => .ok (g.runSingle d s)
  | .stop => .ok (g.stop d s)

theorem inner_of_mem_uploadCalls {g : Generator} {words : List Word} :
    ∀ c ∈ g.uploadCalls words, c.Inner := by
  intro c hc
  rw [uploadCalls] at hc
  rcases List.mem_cons.1 hc with rfl | hc
  · trivial
  · rcases List.mem_append.1 hc with hc | hc
    · obtain ⟨b, -, rfl⟩ := List.mem_map.1 hc
      trivial
    · rw [List.mem_singleton.1 hc]
      trivial

/-- The log of an operation. -/
structure OperationLog (d : Device σ) (op : Operation) (s : σ) (e : Exchange σ Unit)
    (log : List Entry) : Prop where
  answers : d.Answers s log e.state
  calls : e.calls = log.map Prod.fst
  lawful : Round.Lawful ⟨op, log, e.result⟩

theorem session_operation (g : Generator) (d : Device σ) (s : σ) (op : Operation)
    {calls : List Call} (hcalls : ∀ c ∈ calls, c.Inner) :
    ∃ log, OperationLog d op s ((g.session d calls s).map fun _ => ()) log := by
  obtain ⟨log, hans, hlist, hlog⟩ := d.session_log g.resource g.bitfile calls s
  obtain ⟨log', hans', hlist', hsessions⟩ :=
    d.hold_sessions g.resource g.bitfile (Script.inner_require hcalls id) s
  -- Both speak of the same calls, so of the same log.
  obtain ⟨rfl, -⟩ := hans.det hans' (hlist.symm.trans hlist')
  exact ⟨log, hans, hlist, hlog.lawful hsessions op⟩

/-- **What one operation does**, whatever the device does. -/
theorem operate_log {g : Generator} {d : Device σ} {s : σ} {op : Operation} {e : Exchange σ Unit}
    (h : g.operate d s op = .ok e) : ∃ log, OperationLog d op s e log := by
  cases op with
  | start =>
    cases h
    exact g.session_operation d s .start (by simp [Call.Inner])
  | runContinuous =>
    cases h
    exact g.session_operation d s .runContinuous (by simp [Call.Inner])
  | runSingle =>
    cases h
    exact g.session_operation d s .runSingle (by simp [Call.Inner])
  | stop =>
    cases h
    exact g.session_operation d s .stop (by simp [Call.Inner])
  | program p =>
    obtain ⟨e', he', rfl⟩ := Except.map_eq_ok.1 h
    obtain ⟨words, hw, rfl⟩ := Except.map_eq_ok.1 he'
    by_cases hlong : 2 ^ 32 ≤ words.length
    · rw [upload, if_pos hlong]
      refine ⟨[], .nil, rfl, .nil, ?_, ?_, ?_, fun _ => ⟨p, words, rfl, hw, hlong, _, rfl⟩⟩
      · intro pre c err post hnil
        simp at hnil
      · intro pre c err post hnil
        simp at hnil
      · intro pre answer hnil
        simp at hnil
    · rw [upload, if_neg hlong]
      obtain ⟨log, hlog⟩ := g.session_operation d s (.program p) inner_of_mem_uploadCalls
      rw [Exchange.map_map_unit]
      exact ⟨log, hlog⟩

/-! ## Runs -/

/-- Operations one after another, each on the device as the one before left it. -/
inductive Run (g : Generator) (d : Device σ) : σ → List Round → σ → Prop
  | nil {s} : Run g d s [] s
  | cons {s r e rest s'} : g.operate d s r.operation = .ok e → d.Answers s r.log e.state →
      e.calls = r.log.map Prod.fst → e.result = r.result → Run g d e.state rest s' →
      Run g d s (r :: rest) s'

theorem exists_operate (g : Generator) (d : Device σ) (s : σ) {op : Operation}
    (h : op.Compiled) : ∃ e, g.operate d s op = .ok e := by
  cases op with
  | program p =>
    obtain ⟨c, q, hp⟩ := h
    obtain ⟨words, hw⟩ := Compiler.exists_encode hp
    refine ⟨(g.upload d words s).map fun _ => (), ?_⟩
    rw [operate, program, hw]
    rfl
  | start | runContinuous | runSingle | stop => exact ⟨_, rfl⟩

theorem exists_run (g : Generator) (d : Device σ) {ops : List Operation}
    (h : ∀ op ∈ ops, op.Compiled) (s : σ) :
    ∃ rounds s', g.Run d s rounds s' ∧ rounds.map Round.operation = ops := by
  induction ops generalizing s with
  | nil => exact ⟨[], s, .nil, rfl⟩
  | cons op ops ih =>
    obtain ⟨hop, hops⟩ := List.forall_mem_cons.1 h
    obtain ⟨e, he⟩ := g.exists_operate d s hop
    obtain ⟨log, hlog⟩ := operate_log he
    obtain ⟨rounds, s', hrun, rfl⟩ := ih hops e.state
    exact ⟨⟨op, log, e.result⟩ :: rounds, s', .cons he hlog.answers hlog.calls rfl hrun, rfl⟩

/-- What a run keeps: the device is asked what the logs say, each session is closed before the next
is opened, and every operation is lawful. -/
theorem Run.lawful {g : Generator} {d : Device σ} {s s' : σ} {rounds : List Round}
    (h : g.Run d s rounds s') : d.Answers s (rounds.flatMap Round.log) s' ∧
      Sessions (rounds.flatMap Round.log) ∧ ∀ r ∈ rounds, r.Lawful := by
  induction h with
  | nil => exact ⟨.nil, .nil, by simp⟩
  | cons he hans hcalls hres _ ih =>
    obtain ⟨log, hlog⟩ := operate_log he
    -- `operate_log` only says that there is a log; the calls of the round leave no other.
    obtain ⟨rfl, -⟩ := hans.det hlog.answers (hcalls.symm.trans hlog.calls)
    have hround := hlog.lawful
    rw [hres] at hround
    obtain ⟨hrest, hsessions, hlawful⟩ := ih
    exact ⟨hans.append hrest, hround.sessions.append hsessions,
      List.forall_mem_cons.2 ⟨hround, hlawful⟩⟩

/-- **Sessions are released exactly once.** Whatever the device does, a run of operations opens a
session only after it closed the one before, and closes each once, after its last call; each
operation stops at its first failure and returns it. -/
theorem sessions_released (g : Generator) (d : Device σ) (s : σ) :
    (∀ ops : List Operation, (∀ op ∈ ops, op.Compiled) →
      ∃ rounds s', g.Run d s rounds s' ∧ rounds.map Round.operation = ops) ∧
    ∀ rounds s', g.Run d s rounds s' → d.Answers s (rounds.flatMap Round.log) s' ∧
      Sessions (rounds.flatMap Round.log) ∧ ∀ r ∈ rounds, r.Lawful :=
  ⟨fun _ hops => g.exists_run d hops s, fun _ _ hrun => hrun.lawful⟩

/-- A device that cannot be started, and then cannot close the session either, is stopped and sent a
program all the same. -/
theorem sessions_released_after_faults :
    let g : Generator := ⟨"RIO0", none, 2, by decide⟩
    let d := Device.simulated [⟨.run, 0, .writeFailed "run"⟩, ⟨.close, 0, .closed⟩] 0
    ∃ (p : Program) (r : Round) (rounds : List Round) (s' : Simulation),
      g.Run d {} (r :: rounds) s' ∧
      (r :: rounds).map Round.operation = [.start, .stop, .program p] ∧
      r.result = .error (.writeFailed "run") ∧
      Sessions ((r :: rounds).flatMap Round.log) ∧ ∀ x ∈ r :: rounds, x.Lawful := by
  intro g d
  have hops : ∀ op ∈ [.start, .stop, .program ⟨[.triggerWait 1, .wait 0, .jump 0], 1, []⟩],
      Operation.Compiled op := by
    intro op hop
    simp only [List.mem_cons, List.not_mem_nil, or_false] at hop
    rcases hop with rfl | rfl | rfl
    · trivial
    · trivial
    · exact ⟨_, _, Compiler.compile_idle⟩
  obtain ⟨hrun, hlaw⟩ := sessions_released g d {}
  obtain ⟨rounds, s', h, hmap⟩ := hrun _ hops
  obtain ⟨-, hsessions, hlawful⟩ := hlaw rounds s' h
  cases h with
  | nil => cases hmap
  | @cons _ r e rest _ he hans hcalls hres hrest =>
    refine ⟨_, r, rest, s', .cons he hans hcalls hres hrest, hmap, ?_, hsessions, hlawful⟩
    obtain ⟨hop, -⟩ := List.cons.inj hmap
    rw [hop] at he
    cases he
    rw [← hres]
    show (Exchange.map _ (Session.run d ⟨.require [.download, .run] id, {}, _, _⟩)).result = _
    rw [Script.require, Session.run_call rfl]
    show (Exchange.map _ (Session.run d ⟨.require [.run] _, {}, _, _⟩)).result = _
    rw [Script.require, Session.run_call rfl]
    show (Exchange.map _ (Session.run d ⟨.leave _, {}, _, _⟩)).result = _
    rw [Session.run_leave rfl]
    rfl

end Generator

end PulseSequencer
