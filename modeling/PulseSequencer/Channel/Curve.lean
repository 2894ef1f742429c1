import PulseSequencer.Channel.Basic

/-!
A channel drawn as a step curve.

A curve samples a channel at the ends of an interval and on both sides of each switch between
them.
-/

namespace PulseSequencer

/-- Samples of a channel in order of time. -/
structure Curve where
  samples : List (Binary64 × Bool)
  deriving DecidableEq

namespace Channel

/-- Samples at `t0` and `t1` around the given switches, two for each switch. -/
def samples (c : Channel) (t0 t1 : Binary64) (switches : List Binary64) :
    List (Binary64 × Bool) :=
  let isAt (s? : Option Binary64) (t : Binary64) : Bool := s?.any fun s => s.equal t
  let opening := if isAt switches.head? t0 then [] else [(t0, c.state t0)]
  let edges := switches.flatMap fun t => [(t, c.state t), (t, !c.state t)]
  let closing := if isAt switches.getLast? t1 then [] else [(t1, c.state t1)]
  opening ++ edges ++ closing

/-- The switches from `t0` up to `t1`, both included. -/
def switchesWithin (c : Channel) (t0 t1 : Binary64) : List Binary64 :=
  let upTo := c.switches.takeWhile fun s => decide (s ≤ t1)
  upTo.drop (c.switchesBefore t0)

/-- The curve between two times, given in any order. -/
def curveBetween (c : Channel) (a b : Binary64) : Curve :=
  let t0 := a.lesser b
  let t1 := a.greater b
  ⟨c.samples t0 t1 (c.switchesWithin t0 t1)⟩

/-- The curve from the first to the last switch; without switches there is nothing to draw. -/
def curve (c : Channel) : Curve :=
  match c.firstSwitch?, c.lastSwitch? with
  | some t0, some t1 => ⟨c.samples t0 t1 c.switches⟩
  | _, _ => ⟨[]⟩

end Channel

end PulseSequencer
