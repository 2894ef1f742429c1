import PulseSequencer.Decimal.Layout

/-!
One digital channel over time.

A channel rests at its default level and changes level at each of its switch times.  The switch
times are kept in ascending order, and switching twice at one time cancels out, so a channel is a
set of times closed under toggling.
-/

namespace PulseSequencer

/-- The default level of a channel and the ascending times at which the level changes. -/
structure Channel where
  default : Bool
  switches : List Binary64
  deriving DecidableEq

namespace Channel

/-- A channel that never changes. -/
def resting (level : Bool) : Channel := ⟨level, []⟩

/-- Adds `t` to an ascending list of times, or removes it if it is there. -/
def toggle (t : Binary64) : List Binary64 → List Binary64
  | [] => [t]
  | s :: rest =>
    if s < t then s :: toggle t rest
    else if s.equal t then rest
    else t :: s :: rest

/-- Changes the level from time `t` on. -/
def addSwitch (c : Channel) (t : Binary64) : Channel := { c with switches := toggle t c.switches }

def withDefault (c : Channel) (level : Bool) : Channel := { c with default := level }

def firstSwitch? (c : Channel) : Option Binary64 := c.switches.head?

def lastSwitch? (c : Channel) : Option Binary64 := c.switches.getLast?

/-- How many switches lie before `t`. -/
def switchesBefore (c : Channel) (t : Binary64) : Nat :=
  (c.switches.takeWhile fun s => decide (s < t)).length

/-- The level at time `t`; a switch takes effect just after its time. -/
def state (c : Channel) (t : Binary64) : Bool := c.default ^^ c.switchesBefore t % 2 == 1

/-- The level after each switch. -/
def states (c : Channel) : List Bool :=
  (List.range c.switches.length).map fun i => c.default ^^ i % 2 == 0

/-- Same default and the same times by value. -/
def equal (a b : Channel) : Bool :=
  a.default == b.default && a.switches.length == b.switches.length &&
    (a.switches.zip b.switches).all fun (s, t) => s.equal t

/-- A level as a digit. -/
def levelText (level : Bool) : String := if level then "1" else "0"

/-- A heading with the default level, then a line for each switch. -/
def text (c : Channel) : String :=
  c.switches.foldl (fun acc t =>
    let before := c.state t
    acc ++ "\nt=" ++ Layout.scientific.write t ++ "s\t" ++ levelText before ++ "->" ++
      levelText !before)
    ("ChannelTimeline (default " ++ levelText c.default ++ "):")

end Channel

end PulseSequencer
