import PulseSequencer.Description.Basic

/-!
From the fields of a document to a description.

Document formats differ in how they spell values.  A `Spelling` gives the readings of one format;
which fields a description has, which may be missing and which may not be repeated is said here,
once for all formats.
-/

namespace PulseSequencer

/-- A value inside a pulse, as far as a pulse can use it. -/
inductive Quantity where
  | whole (n : Int)
  | number (x : Binary64)
  /-- a value that is no number -/
  | other
  deriving DecidableEq

namespace Quantity

/-- A channel number. -/
def natural? : Quantity → Option Nat
  | .whole n => if n < 0 then none else some n.toNat
  | _ => none

/-- A time; a whole number is taken as the nearest double. -/
def time? : Quantity → Option Binary64
  | .whole n => some (.ofInt n)
  | .number x => some x
  | .other => none

end Quantity

/-- A field of a pulse is named, or counted from zero in the order of declaration. -/
inductive FieldKey where
  | name (s : String)
  | position (n : Nat)
  deriving DecidableEq

/-- A pulse as a document gives it: its kind, and its fields under keys or in order. -/
inductive PulseSource where
  | keyed (kind : String) (fields : List (FieldKey × Quantity))
  | ordered (kind : String) (fields : List Quantity)

namespace PulseSource

/-- The values under a field, which is named `name` and declared at position `n`. -/
def valuesOf (fields : List (FieldKey × Quantity)) (name : String) (n : Nat) : List Quantity :=
  fields.filterMap fun (key, q) => if key = .name name ∨ key = .position n then some q else none

/-- A field that stands exactly once. -/
def required? {α : Type} (read : Quantity → Option α) : List Quantity → Option α
  | [q] => read q
  | _ => none

/-- A field that may be left out. -/
def optional? {α : Type} (fallback : α) (read : Quantity → Option α) : List Quantity → Option α
  | [] => some fallback
  | [q] => read q
  | _ => none

/-- The pulse that a document gives.  Fields with other names are passed over. -/
def pulse? : PulseSource → Option Pulse
  | .keyed "add" fields => do
    let channel ← required? Quantity.natural? (valuesOf fields "channel" 0)
    let t0 ← required? Quantity.time? (valuesOf fields "t0" 1)
    let duration ← required? Quantity.time? (valuesOf fields "duration" 2)
    return .add channel t0 duration
  | .keyed "append" fields => do
    let channel ← required? Quantity.natural? (valuesOf fields "channel" 0)
    let delay ← optional? Binary64.zero Quantity.time? (valuesOf fields "delay" 1)
    let duration ← required? Quantity.time? (valuesOf fields "duration" 2)
    return .append channel delay duration
  | .keyed "switch" fields => do
    let channel ← required? Quantity.natural? (valuesOf fields "channel" 0)
    let t ← required? Quantity.time? (valuesOf fields "t" 1)
    return .switch channel t
  | .ordered "add" [channel, t0, duration] => do
    return .add (← channel.natural?) (← t0.time?) (← duration.time?)
  | .ordered "append" [channel, delay, duration] => do
    return .append (← channel.natural?) (← delay.time?) (← duration.time?)
  | .ordered "switch" [channel, t] => do return .switch (← channel.natural?) (← t.time?)
  | _ => none

end PulseSource

/-- How a document format spells the values of a description; `ν` is the type of its nodes, and
`m` what happens while they are read, which may fail. -/
structure Spelling (m : Type → Type) (ν : Type) where
  /-- the node that stands behind a node, if that is a reference to another -/
  reveal : ν → m ν
  /-- whether a value is explicitly absent; `none` if it is malformed -/
  isNull? : ν → Option Bool
  natural? : ν → Option Nat
  number? : ν → Option Binary64
  flag? : ν → Option Bool
  items? : ν → Option (List ν)
  pulse : ν → m PulseSource

namespace Spelling

variable {m : Type → Type} {ν : Type} [Monad m] [MonadLiftT Option m]

/-- The value that a node or the one behind it spells. -/
def value {α : Type} (sp : Spelling m ν) (read? : ν → Option α) (v : ν) : m α := do
  liftM (read? (← sp.reveal v))

/-- The value under a key that may be left out but not repeated. -/
def field {α : Type} (entries : List (String × ν)) (key : String) (fallback : α)
    (read : ν → m α) : m α :=
  match entries.filter fun e => e.1 == key with
  | [] => pure fallback
  | [e] => read e.2
  | _ => liftM (none : Option α)

/-- A value or an explicit absence. -/
def nullable {α : Type} (sp : Spelling m ν) (read : ν → m α) (v : ν) : m (Option α) := do
  let v ← sp.reveal v
  if ← sp.isNull? v then return none else return some (← read v)

end Spelling

namespace Description

/-- The keys of a description in order. -/
def keys : List String := ["nchannels", "defaults", "start_time", "stop_time", "pulses"]

/-- The description that the fields of a document give.  Other keys are passed over. -/
def ofEntries {m : Type → Type} {ν : Type} [Monad m] [MonadLiftT Option m]
    (sp : Spelling m ν) (entries : List (String × ν)) : m Description := do
  let natural := sp.value sp.natural?
  let number := sp.value sp.number?
  let flags (v : ν) : m (List Bool) := do (← sp.value sp.items? v).mapM (sp.value sp.flag?)
  let pulse (v : ν) : m Pulse := do liftM (← sp.pulse v).pulse?
  let pulses (v : ν) : m (List Pulse) := do (← sp.value sp.items? v).mapM pulse
  return {
    nchannels := ← Spelling.field entries "nchannels" none (sp.nullable natural)
    defaults := ← Spelling.field entries "defaults" none (sp.nullable flags)
    startTime := ← Spelling.field entries "start_time" Binary64.zero number
    stopTime := ← Spelling.field entries "stop_time" none (sp.nullable number)
    pulses := ← Spelling.field entries "pulses" [] pulses }

end Description

end PulseSequencer
