/-!
Tokens of a YAML text.
-/

namespace PulseSequencer
namespace Yaml

/-- How a scalar is written. -/
inductive Style where
  | plain
  | singleQuoted
  | doubleQuoted
  | literal
  | folded
  deriving DecidableEq, Repr

/-- A tag as written: with a handle that stands for the beginning of a name, or in full.  Names of
tags are written as bytes, and these need not be text. -/
structure TagSource where
  handle : String
  suffix : List UInt8
  deriving DecidableEq, Repr

inductive Token where
  /-- a directive that names a supported version -/
  | version
  /-- a directive that says what a tag handle stands for -/
  | tagHandle (handle : String) (meaning : List UInt8)
  | documentStart
  | documentEnd
  | blockListStart
  | blockMappingStart
  | blockEnd
  | flowListStart
  | flowListEnd
  | flowMappingStart
  | flowMappingEnd
  | blockEntry
  | flowEntry
  | key
  | value
  | alias (name : String)
  | anchor (name : String)
  | tag (source : TagSource)
  | scalar (style : Style) (text : String)
  deriving DecidableEq, Repr

end Yaml
end PulseSequencer
