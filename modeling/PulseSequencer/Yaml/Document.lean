import PulseSequencer.Yaml.Meaning

/-!
Reading the values of a YAML document.

An alias is followed when its value is asked for, and only then; a value that nobody asks for may
hold any aliases.  Since following may lead back to where it started, the number of aliases that
are followed in one document is bounded by its size.
-/

namespace PulseSequencer
namespace Yaml

namespace Node

mutual

/-- The size of a node: each scalar and alias counts once, each list and mapping twice besides what
it holds. -/
def size : Node → Nat
  | .scalar .. => 1
  | .alias _ => 1
  | .list _ items => 2 + sizeOfItems items
  | .mapping _ entries => 2 + sizeOfEntries entries

def sizeOfItems : List Node → Nat
  | [] => 0
  | n :: rest => size n + sizeOfItems rest

def sizeOfEntries : List (Node × Node) → Nat
  | [] => 0
  | (k, v) :: rest => size k + size v + sizeOfEntries rest

end

end Node

/-- A reading that may follow aliases.  The state is how many more may be followed. -/
abbrev Follow := StateT Nat Option

namespace Document

/-- The node that a node stands for. -/
def follow (d : Document) : Node → Follow Node
  | .alias number => do
    match ← get with
    | 0 => failure
    | left + 1 =>
      set left
      liftM (d.numbered.lookup number)
  | n => return n

/-- The result of a reading, in which a hundred aliases may be followed for each unit of size. -/
def read? {α : Type} (d : Document) (reading : Follow α) : Option α :=
  (reading.run (100 * d.root.size)).map Prod.fst

/-- The entries of a mapping with their keys as texts; a value that is left out is an empty
mapping. -/
def entries (d : Document) (n : Node) : Follow (List (String × Node)) := do
  match ← d.follow n with
  | .mapping _ entries => entries.mapM fun (key, v) => do return (← (← d.follow key).text?, v)
  | .scalar .plain _ "" => return []
  | _ => failure

/-- Checks that a node can be read without knowing its type and nests at most `levels` deep. -/
def check (d : Document) : (levels : Nat) → Node → Follow Unit
  | 0, n => do
    match ← d.follow n with
    | .scalar style tag s => guard (Node.datum? style tag s).isSome
    | _ => failure
  | levels + 1, n => do
    match ← d.follow n with
    | .scalar style tag s => guard (Node.datum? style tag s).isSome
    | .list tag items =>
      guard !tag.any Tag.isLocal
      items.forM (d.check levels)
    | .mapping tag entries =>
      guard !tag.any Tag.isLocal
      entries.forM fun (k, v) => do
        d.check levels k
        d.check levels v
    | .alias _ => failure

end Document

end Yaml
end PulseSequencer
