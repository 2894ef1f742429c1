import PulseSequencer.Device.Basic

/-!
Sessions with a device.

An open session is held by a guard, which closes it when it goes out of scope.  A `Script` is code
that holds the guard.  It may give the guard to `finish`, which closes the session and tells how
that went; the guard goes out of scope there as well, and only its flag keeps it from closing the
session a second time.
-/

namespace PulseSequencer

variable {σ α : Type}

/-- The scoped handle of an open session. -/
structure Guard where
  /-- whether the session has been closed -/
  closed : Bool := false
  deriving DecidableEq

namespace Guard

/-- Closes the session now, and notes that it did. -/
def finish (g : Guard) (d : Device σ) (s : σ) : Guard × Except TransportError Word × σ :=
  ({ g with closed := true }, d.respond .close s)

/-- The calls that a guard makes when it goes out of scope: it closes a session that is still open,
and how that ends is not told. -/
def drop (g : Guard) (d : Device σ) (s : σ) : List Call × σ :=
  if g.closed then ([], s) else ([.close], (d.respond .close s).2)

end Guard

/-- Code that holds the guard of a session. -/
inductive Script (α : Type) where
  /-- makes a call and goes on by its answer -/
  | call (c : Call) (next : Except TransportError Word → Script α)
  /-- gives the guard to `finish` and returns by its answer -/
  | finish (next : Except TransportError Word → Except TransportError α)
  /-- returns while the guard is held -/
  | leave (result : Except TransportError α)

namespace Script

/-- Makes calls in order and finishes the session.  A call that fails is returned at once. -/
def require : List Call → (List Word → α) → Script α
  | [], f => .finish fun closing => closing.map fun _ => f []
  | c :: rest, f => .call c fun
    | .error e => .leave (.error e)
    | .ok w => require rest fun words => f (w :: words)

/-- Makes calls in order, whether or not they fail, and then finishes the session or just leaves
it. -/
def attempt (finish : Bool) : List Call → (List (Except TransportError Word) → α) → Script α
  | [], f => if finish then .finish fun closing => .ok (f [closing]) else .leave (.ok (f []))
  | c :: rest, f => .call c fun answer => attempt finish rest fun answers => f (answer :: answers)

/-- What a script goes on with after one step. -/
inductive Next : Script α → Script α → Prop
  | call {c next} (answer) : Next (next answer) (.call c next)
  | finish {next} (answer) : Next (.leave (next answer)) (.finish next)

theorem next_wf : WellFounded (Next (α := α)) := by
  have hleave : ∀ result : Except TransportError α, Acc Next (.leave result) := fun _ => ⟨_, nofun⟩
  refine ⟨fun script => ?_⟩
  induction script with
  | leave result => exact hleave result
  | finish next => exact ⟨_, fun | _, .finish answer => hleave (next answer)⟩
  | call c next ih => exact ⟨_, fun | _, .call answer => ih answer⟩

instance : WellFoundedRelation (Script α) := ⟨Next, next_wf⟩

end Script

/-- A session part way through its script, with the calls made so far, last first. -/
structure Session (σ α : Type) where
  script : Script α
  guard : Guard := {}
  calls : List Call := []
  state : σ

namespace Session

/-- One step of a session.  Whatever way the script ends, its last step drops the guard. -/
def step (d : Device σ) (m : Session σ α) : Exchange σ α ⊕ Session σ α :=
  match m.script with
  | .call c next =>
    let (answer, s) := d.respond c m.state
    .inr { m with script := next answer, calls := c :: m.calls, state := s }
  | .finish next =>
    let (guard, answer, s) := m.guard.finish d m.state
    .inr ⟨.leave (next answer), guard, .close :: m.calls, s⟩
  | .leave result =>
    let (dropping, s) := m.guard.drop d m.state
    .inl ⟨result, m.calls.reverse ++ dropping, s⟩

theorem next_of_step {d : Device σ} {m m' : Session σ α} (h : m.step d = .inr m') :
    Script.Next m'.script m.script := by
  unfold step at h
  split at h
  · rename_i c next hscript
    cases h
    rw [hscript]
    exact .call _
  · rename_i next hscript
    cases h
    rw [hscript]
    exact .finish _
  · cases h

/-- Makes steps until the guard is dropped. -/
def run (d : Device σ) (m : Session σ α) : Exchange σ α :=
  match _hstep : m.step d with
  | .inl e => e
  | .inr m' => m'.run d
termination_by m.script
decreasing_by exact next_of_step _hstep

end Session

namespace Device

/-- Runs a script in a session of its own, unless the session cannot be opened. -/
def hold (d : Device σ) (resource : String) (bitfile : Option String) (script : Script α) (s : σ) :
    Exchange σ α :=
  let opening := Call.openSession resource bitfile
  match d.respond opening s with
  | (.error e, s') => ⟨.error e, [opening], s'⟩
  | (.ok _, s') => Session.run d { script, calls := [opening], state := s' }

/-- Calls within a session of their own, up to the first that fails. -/
def session (d : Device σ) (resource : String) (bitfile : Option String) (calls : List Call)
    (s : σ) : Exchange σ (List Word) :=
  d.hold resource bitfile (.require calls id) s

/-- A session in which a failed call does not keep the next ones from being made.  Its result lists
the answers, with that of closing the session at the end if `finish` asks for it. -/
def attemptSession (d : Device σ) (resource : String) (calls : List Call) (finish : Bool)
    (s : σ) : Exchange σ (List (Except TransportError Word)) :=
  d.hold resource none (.attempt finish calls id) s

end Device

end PulseSequencer
