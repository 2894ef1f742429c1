import PulseSequencer.Json.Token

/-!
Reading JSON values.

The tokens are read in order.  The lists and objects that are still open are kept from the inside
out, each with what it holds so far.
-/

namespace PulseSequencer
namespace Json

/-- The fields of an object.  A key that denotes nothing is kept as missing. -/
abbrev Fields := List (Option String × Json)

/-- A list or object that is still open, with its contents last first. -/
inductive Frame where
  | list (items : List Json)
  | object (fields : Fields)
  /-- an object whose last field has a key and no value yet -/
  | field (fields : Fields) (key : Option String)

/-- What may come next. -/
inductive Expected where
  | value
  /-- a value, or the end of the list just opened -/
  | firstItem
  | key
  /-- a key, or the end of the object just opened -/
  | firstKey
  | colon
  /-- a comma, or the end of the innermost list or object -/
  | separator
  /-- nothing: the document is complete -/
  | done (v : Json)

structure ReadState where
  frames : List Frame
  expected : Expected

namespace ReadState

/-- The object with the given fields; a key that denotes nothing leaves the whole without a
meaning. -/
def ofFields (fields : Fields) : Json :=
  match fields.mapM fun (key, v) => key.map (·, v) with
  | some fields => .object fields
  | none => .unreadable

/-- Puts a finished value where it belongs. -/
def complete (v : Json) : List Frame → Option ReadState
  | [] => some ⟨[], .done v⟩
  | .list items :: outer => some ⟨.list (v :: items) :: outer, .separator⟩
  | .field fields key :: outer => some ⟨.object ((key, v) :: fields) :: outer, .separator⟩
  | .object _ :: _ => none

/-- A token where a value is expected. -/
def startValue (frames : List Frame) : Token → Option ReadState
  | .value v => complete v frames
  | .text s => complete ((s.map Json.text).getD .unreadable) frames
  | .openList => some ⟨.list [] :: frames, .firstItem⟩
  | .openObject => some ⟨.object [] :: frames, .firstKey⟩
  | _ => none

/-- A token where the innermost list or object may end. -/
def close : Token → List Frame → Option ReadState
  | .closeList, .list items :: outer => complete (.list items.reverse) outer
  | .closeObject, .object fields :: outer => complete (ofFields fields.reverse) outer
  | _, _ => none

/-- A token where a key is expected. -/
def startField : Token → List Frame → Option ReadState
  | .text key, .object fields :: outer => some ⟨.field fields key :: outer, .colon⟩
  | _, _ => none

/-- A comma inside a list or object. -/
def continueWith : List Frame → Option ReadState
  | frames@(.list _ :: _) => some ⟨frames, .value⟩
  | frames@(.object _ :: _) => some ⟨frames, .key⟩
  | _ => none

/-- The state after one more token. -/
def step (s : ReadState) (t : Token) : Option ReadState :=
  match s.expected with
  | .value => startValue s.frames t
  | .firstItem =>
    match t with
    | .closeList => close t s.frames
    | _ => startValue s.frames t
  | .key => startField t s.frames
  | .firstKey =>
    match t with
    | .closeObject => close t s.frames
    | _ => startField t s.frames
  | .colon =>
    match t with
    | .colon => some { s with expected := .value }
    | _ => none
  | .separator =>
    match t with
    | .comma => continueWith s.frames
    | _ => close t s.frames
  | .done _ => none

end ReadState

/-- The value that a list of tokens spells. -/
def ofTokens? (ts : List Token) : Option Json := do
  let s ← ts.foldlM ReadState.step ⟨[], .value⟩
  match s.expected with
  | .done v => return v
  | _ => none

/-- Reads a JSON document. -/
def parse? (s : String) : Option Json := (Token.scan s.toList).bind ofTokens?

mutual

/-- A value denotes something throughout and nests at most `levels` deep. -/
def readable (levels : Nat) : Json → Bool
  | .unreadable => false
  | .list items => 0 < levels && readableItems (levels - 1) items
  | .object fields => 0 < levels && readableFields (levels - 1) fields
  | _ => true

def readableItems (levels : Nat) : List Json → Bool
  | [] => true
  | v :: rest => readable levels v && readableItems levels rest

def readableFields (levels : Nat) : List (String × Json) → Bool
  | [] => true
  | (_, v) :: rest => readable levels v && readableFields levels rest

end

end Json
end PulseSequencer
