import PulseSequencer.Description.Json
import PulseSequencer.Yaml.Document
import PulseSequencer.Yaml.Writer

/-!
Descriptions as YAML documents.
-/

namespace PulseSequencer

namespace Yaml.Document

/-- How many levels lists and mappings inside a pulse may add to the three around them. -/
def pulseLevels : Nat := 125

/-- A value inside a pulse. -/
def quantity (d : Document) (n : Node) : Follow Quantity := do
  let n ← d.follow n
  d.check pulseLevels n
  match n with
  | .scalar style tag s =>
    match ← Node.datum? style tag s with
    | .natural k => return .whole k
    | .negated k => return .whole (-k)
    | .number x => return .number x
    | _ => return .other
  | _ => return .other

/-- The key of a field of a pulse: a text, or a number without a sign that counts the fields. -/
def fieldKey (d : Document) (n : Node) : Follow FieldKey := do
  match ← d.follow n with
  | .scalar style tag s =>
    match Node.datum? style tag s with
    | some (.text name) => return .name name
    | some (.natural k) => return .position k
    | _ => failure
  | _ => failure

/-- A pulse is a mapping with a single `kind`, or a list that starts with the kind. -/
def pulseSource (d : Document) (n : Node) : Follow PulseSource := do
  match ← d.follow n with
  | .mapping tag entries =>
    guard !tag.any Tag.isLocal
    let keyed ← entries.mapM fun (k, v) => do return (← d.fieldKey k, v)
    let kinds := keyed.filter fun e => e.1 = .name "kind"
    let others := keyed.filter fun e => e.1 ≠ .name "kind"
    match kinds with
    | [(_, kind)] =>
      let kind ← (← d.follow kind).text?
      return .keyed kind (← others.mapM fun (k, v) => do return (k, ← d.quantity v))
    | _ => failure
  | .list tag (kind :: rest) =>
    guard !tag.any Tag.isLocal
    let kind ← (← d.follow kind).text?
    return .ordered kind (← rest.mapM d.quantity)
  | _ => failure

/-- How YAML spells the values of a description. -/
def spelling (d : Document) : Spelling Follow Node where
  reveal := d.follow
  isNull? := Node.isNull?
  natural? := Node.natural?
  number? := Node.number?
  flag? := Node.flag?
  items? := Node.items?
  pulse := d.pulseSource

end Yaml.Document

namespace Description

/-- A document is a mapping; an empty one has no fields. -/
def parseYaml? (s : String) : Option Description := do
  match ← Yaml.Document.parse? s with
  | none => return {}
  | some d => d.read? do ofEntries d.spelling (← d.entries d.root)

/-- The description as a YAML document. -/
def toYaml (d : Description) : String :=
  match d.toJson with
  | .object fields => Yaml.Writer.document fields
  | _ => ""

end Description

end PulseSequencer
