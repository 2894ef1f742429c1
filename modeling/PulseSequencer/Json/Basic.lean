import PulseSequencer.Binary64.Basic

/-!
JSON values.
-/

namespace PulseSequencer

/-- A JSON value.  Whole numbers are kept apart from the other numbers. -/
inductive Json where
  | null
  | bool (value : Bool)
  | integer (value : Int)
  | number (value : Binary64)
  | text (value : String)
  | list (items : List Json)
  | object (fields : List (String × Json))
  /-- a number too large for a double, a text with half a character or an object with such a text
  as a key: it may stand in a document but denotes nothing -/
  | unreadable

end PulseSequencer
