import PulseSequencer.Description.Fields
import PulseSequencer.Json.Library

/-!
Descriptions as JSON documents.
-/

namespace PulseSequencer

namespace Json

/-- How many levels lists and objects inside a pulse may add to the three around them. -/
def pulseLevels : Nat := 124

/-- A value inside a pulse. -/
def quantity? (v : Json) : Option Quantity :=
  if v.readable pulseLevels then
    match v with
    | .integer n => some (.whole n)
    | .number x => some (.number x)
    | _ => some .other
  else none

/-- A pulse is an object with a single `kind`, or a list that starts with the kind. -/
def pulseSource? : Json → Option PulseSource
  | .object fields => do
    let kinds := fields.filter fun e => e.1 == "kind"
    let others := fields.filter fun e => e.1 != "kind"
    match kinds with
    | [(_, .text kind)] =>
      return .keyed kind (← others.mapM fun (key, v) => do return (.name key, ← quantity? v))
    | _ => none
  | .list (.text kind :: rest) => do return .ordered kind (← rest.mapM quantity?)
  | _ => none

/-- How JSON spells the values of a description. -/
def spelling : Spelling Option Json where
  reveal := some
  isNull?
    | .null => some true
    | _ => some false
  natural?
    | .integer n => if n < 0 then none else some n.toNat
    | _ => none
  number?
    | .integer n => some (.ofInt n)
    | .number x => some x
    | _ => none
  flag?
    | .bool b => some b
    | _ => none
  items?
    | .list items => some items
    | _ => none
  pulse := pulseSource?

end Json

namespace Description

/-- A document is an object, or a list of the fields in order from the first on. -/
def ofJson? : Json → Option Description
  | .object fields => ofEntries Json.spelling fields
  | .list items =>
    if items.length ≤ keys.length then ofEntries Json.spelling (keys.zip items) else none
  | _ => none

/-- Reads a JSON document. -/
def parseJson? (lib : Json.Library) (s : String) : Option Description := (lib.read? s).bind ofJson?

def pulseToJson : Pulse → Json
  | .add channel t0 duration =>
    .object [("kind", .text "add"), ("channel", .integer channel), ("t0", .number t0),
      ("duration", .number duration)]
  | .append channel delay duration =>
    .object [("kind", .text "append"), ("channel", .integer channel), ("delay", .number delay),
      ("duration", .number duration)]
  | .switch channel t =>
    .object [("kind", .text "switch"), ("channel", .integer channel), ("t", .number t)]

/-- A value, or `null` where there is none. -/
def orNull {α : Type} (f : α → Json) (x : Option α) : Json := (x.map f).getD .null

def toJson (d : Description) : Json :=
  .object [("nchannels", orNull (fun n : Nat => .integer n) d.nchannels),
    ("defaults", orNull (fun levels => .list (levels.map Json.bool)) d.defaults),
    ("start_time", .number d.startTime),
    ("stop_time", orNull Json.number d.stopTime),
    ("pulses", .list (d.pulses.map pulseToJson))]

end Description

end PulseSequencer
