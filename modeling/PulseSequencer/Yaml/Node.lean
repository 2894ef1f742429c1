import PulseSequencer.Yaml.Scanner

/-!
YAML documents as trees.

The tokens of a text give one document.  Anchors number the nodes they stand before, and an alias
holds the number that its name has at that place.  Two nodes may come to share a number; it stands
for the one that starts last in the document.
-/

namespace PulseSequencer
namespace Yaml

/-- The name of a tag. -/
inductive Tag where
  | name (s : String)
  /-- bytes that are no text; what counts of them is whether an exclamation mark comes first -/
  | garbled (marked : Bool)
  deriving DecidableEq, Repr

namespace Tag

def ofBytes (bytes : List UInt8) : Tag :=
  match String.fromUTF8? (ByteArray.mk bytes.toArray) with
  | some s => .name s
  | none => .garbled (bytes.head? = some '!'.toUInt8)

/-- The tag of a standard type. -/
def standard (type : String) : Tag := .name ("tag:yaml.org,2002:" ++ type)

/-- A tag that belongs to a program and not to the standard types. -/
def isLocal : Tag → Bool
  | .name s => s.toList.head? = some '!'
  | .garbled _ => false

end Tag

inductive Node where
  | scalar (style : Style) (tag : Option Tag) (text : String)
  | list (tag : Option Tag) (items : List Node)
  | mapping (tag : Option Tag) (entries : List (Node × Node))
  /-- a reference to the node with a number -/
  | alias (number : Nat)

/-- A document with the nodes that its aliases may stand for. -/
structure Document where
  root : Node
  numbered : List (Nat × Node) := []

namespace Node

/-- The node of a value that is left out. -/
def missing : Node := .scalar .plain none ""

/-- What the tag handles stand for. -/
abbrev Handles := List (String × List UInt8)

/-- Handles that need no directive. -/
def standardHandles : Handles :=
  [("!", "!".toUTF8.toList), ("!!", "tag:yaml.org,2002:".toUTF8.toList)]

/-- A node with a number that an anchor has given it. -/
structure Numbered where
  number : Nat
  /-- how many nodes with anchors start before it -/
  start : Nat
  node : Node

/-- A reading part way through the tokens. -/
structure ReadState where
  tokens : List Token
  handles : Handles
  /-- the names of the anchors so far with their numbers -/
  numbers : List (String × Nat) := []
  /-- how many nodes with anchors have started -/
  started : Nat := 0
  /-- the nodes with anchors that are complete -/
  numbered : List Numbered := []

abbrev Read := StateT ReadState Option

def peek : Read (Option Token) := do return (← get).tokens.head?

def advance : Read Unit := modify fun s => { s with tokens := s.tokens.tail }

/-- The tag that a source stands for. -/
def tagOf (t : TagSource) : Read Tag := do
  if t.handle = "" then return .ofBytes t.suffix
  else
    match (← get).handles.lookup t.handle with
    | some meaning => return .ofBytes (meaning ++ t.suffix)
    | none => failure

/-- An anchor and a tag before a node, in either order. -/
def properties : Read (Option String × Option Tag) := do
  let anchor? : Read (Option String) := do
    match ← peek with
    | some (.anchor name) => advance; return some name
    | _ => return none
  let tag? : Read (Option Tag) := do
    match ← peek with
    | some (.tag t) => advance; return some (← tagOf t)
    | _ => return none
  match ← anchor? with
  | some name => return (some name, ← tag?)
  | none =>
    let tag ← tag?
    return (← anchor?, tag)

/-- A reference to the node under the anchor with a name. -/
def aliased (name : String) : Read Node := do
  match (← get).numbers.lookup name with
  | some number => return .alias number
  | none => failure

/-- Reads a node under an anchor.  Its number is the number of different names before it. -/
def anchored (anchor : Option String) (read : Read Node) : Read Node := do
  match anchor with
  | none => read
  | some name =>
    let s ← get
    let number := s.numbers.length
    set { s with
      numbers := (name, number) :: s.numbers.filter (fun e => e.1 != name)
      started := s.started + 1 }
    let n ← read
    modify fun t => { t with numbered := ⟨number, s.started, n⟩ :: t.numbered }
    return n

/-- The next token is one of those that may follow an empty node. -/
def nextIn (ts : List Token) : Read Bool := do
  match ← peek with
  | some t => return ts.contains t
  | none => return false

mutual

/-- Reads a node.  Block collections stand in blocks only, and a list may stand at the column of
its key. -/
def read (block listAtKey : Bool) : (fuel : Nat) → Read Node
  | 0 => failure
  | fuel + 1 => do
    match ← peek with
    | some (.alias name) => advance; aliased name
    | _ =>
      let (anchor, tag) ← properties
      let empty : Read Node :=
        if anchor.isSome ∨ tag.isSome then anchored anchor (return .scalar .plain tag "")
        else failure
      match ← peek with
      | some (.scalar style text) =>
        advance
        anchored anchor (return .scalar style tag text)
      | some .flowListStart =>
        advance
        anchored anchor (return .list tag (← flowItems true fuel))
      | some .flowMappingStart =>
        advance
        anchored anchor (return .mapping tag (← flowEntries true fuel))
      | some .blockListStart =>
        if block then
          advance
          anchored anchor (return .list tag (← blockItems fuel))
        else empty
      | some .blockMappingStart =>
        if block then
          advance
          anchored anchor (return .mapping tag (← blockEntries fuel))
        else empty
      | some .blockEntry =>
        if listAtKey then anchored anchor (return .list tag (← itemsAtKey fuel)) else empty
      | _ => empty

/-- The items of a block list up to its end. -/
def blockItems : (fuel : Nat) → Read (List Node)
  | 0 => failure
  | fuel + 1 => do
    match ← peek with
    | some .blockEntry =>
      advance
      let item ← if ← nextIn [.blockEntry, .blockEnd] then pure missing else read true false fuel
      return item :: (← blockItems fuel)
    | some .blockEnd => advance; return []
    | _ => failure

/-- The items of a list at the column of its key, which ends where no further item starts. -/
def itemsAtKey : (fuel : Nat) → Read (List Node)
  | 0 => failure
  | fuel + 1 => do
    match ← peek with
    | some .blockEntry =>
      advance
      let item ← if ← nextIn [.blockEntry, .key, .value, .blockEnd] then pure missing
        else read true false fuel
      return item :: (← itemsAtKey fuel)
    | _ => return []

/-- The entries of a block mapping up to its end. -/
def blockEntries : (fuel : Nat) → Read (List (Node × Node))
  | 0 => failure
  | fuel + 1 => do
    let side : Read Node := do
      if ← nextIn [.key, .value, .blockEnd] then return missing else read true true fuel
    match ← peek with
    | some .key =>
      advance
      let key ← side
      let value ← if ← nextIn [.value] then do advance; side else pure missing
      return (key, value) :: (← blockEntries fuel)
    | some .blockEnd => advance; return []
    | _ => failure

/-- The items of a flow list up to its bracket; before each but the first stands a comma.  A key
makes a mapping of one entry. -/
def flowItems (first : Bool) : (fuel : Nat) → Read (List Node)
  | 0 => failure
  | fuel + 1 => do
    if ← nextIn [.flowListEnd] then advance; return []
    else
      if !first then
        if ← nextIn [.flowEntry] then advance else failure
      match ← peek with
      | some .flowListEnd => advance; return []
      | some .key =>
        advance
        let key ← if ← nextIn [.value, .flowEntry, .flowListEnd] then do advance; pure missing
          else read false false fuel
        let value ← if ← nextIn [.value] then do
            advance
            if ← nextIn [.flowEntry, .flowListEnd] then pure missing else read false false fuel
          else pure missing
        return .mapping none [(key, value)] :: (← flowItems false fuel)
      | _ =>
        let item ← read false false fuel
        return item :: (← flowItems false fuel)

/-- The entries of a flow mapping up to its brace; before each but the first stands a comma.  An
entry without a colon has no value. -/
def flowEntries (first : Bool) : (fuel : Nat) → Read (List (Node × Node))
  | 0 => failure
  | fuel + 1 => do
    if ← nextIn [.flowMappingEnd] then advance; return []
    else
      if !first then
        if ← nextIn [.flowEntry] then advance else failure
      match ← peek with
      | some .flowMappingEnd => advance; return []
      | some .key =>
        advance
        let key ← if ← nextIn [.value, .flowEntry, .flowMappingEnd] then pure missing
          else read false false fuel
        let value ← if ← nextIn [.value] then do
            advance
            if ← nextIn [.flowEntry, .flowMappingEnd] then pure missing
            else read false false fuel
          else pure missing
        return (key, value) :: (← flowEntries false fuel)
      | _ =>
        let key ← read false false fuel
        return (key, missing) :: (← flowEntries false fuel)

end

/-- The directives before a document; none may be repeated. -/
def directives? : (version : Bool) → (handles : Handles) → List Token →
    Option (Handles × List Token)
  | version, handles, .version :: rest => if version then none else directives? true handles rest
  | version, handles, .tagHandle handle meaning :: rest =>
    if (handles.lookup handle).isSome then none
    else directives? version ((handle, meaning) :: handles) rest
  | _, handles, tokens => some (handles ++ standardHandles, tokens)

/-- A token that ends a document or belongs to the next one. -/
def endsDocument : Token → Bool
  | .version | .tagHandle .. | .documentStart | .documentEnd => true
  | _ => false

/-- The nodes by number, the one that starts last before the others. -/
def byNumber (nodes : List Numbered) : List (Nat × Node) :=
  (nodes.mergeSort fun a b => b.start ≤ a.start).map fun a => (a.number, a.node)

end Node

namespace Document

open Node in
/-- Reads the only document of a text; a text need not have one. -/
def ofTokens? (tokens : List Token) : Option (Option Document) := do
  let (handles, rest) ← directives? false [] tokens
  if tokens.isEmpty then return none
  else
    let directed := rest.length < tokens.length
    let (explicit, rest) := match rest with
      | .documentStart :: rest => (true, rest)
      | rest => (false, rest)
    if directed ∧ ¬explicit then none
    else
      let fuel := 2 * rest.length + 4
      let (n, s) ←
        if explicit ∧ rest.head?.all endsDocument then
          some (missing, ({ tokens := rest, handles := handles } : ReadState))
        else (read true false fuel).run { tokens := rest, handles := handles }
      if s.tokens.all (· = .documentEnd) then return some ⟨n, byNumber s.numbered⟩ else none

/-- Reads the only document of a text. -/
def parse? (text : String) : Option (Option Document) := (scan? text).bind ofTokens?

end Document

end Yaml
end PulseSequencer
