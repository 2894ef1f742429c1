/-!
Arguments of a command line.

An argument is a flag, an option with its value, or an operand.  Each command says which options it
knows; a command line that does not fit is rejected as a whole.
-/

namespace PulseSequencer
namespace CommandLine

/-- An option that takes a value, under a long and perhaps a short name. -/
structure OptionSpec where
  name : String
  letter : Option Char := none
  accepts : String → Bool

/-- Flags that end the reading of the command line. -/
inductive Flag where
  | help
  | version
  deriving DecidableEq, Repr

/-- What a command takes. -/
structure CommandSpec where
  options : List OptionSpec
  flags : List (String × Char × Flag)
  /-- how many operands there may be -/
  maxOperands : Nat
  /-- the commands below this one, in place of operands -/
  commands : List String

/-- The options and operands that have been read. -/
structure Given where
  options : List (String × String) := []
  operands : List String := []
  deriving DecidableEq

namespace Given

/-- Notes the value of an option, which may be given once and has to be acceptable. -/
def withOption? (g : Given) (o : OptionSpec) (value : String) : Option Given :=
  if (g.options.lookup o.name).isSome || !o.accepts value then none
  else some { g with options := (o.name, value) :: g.options }

/-- Notes operands, which may not be empty. -/
def withOperands? (g : Given) (limit : Nat) (operands : List String) : Option Given :=
  if limit < g.operands.length + operands.length || operands.any String.isEmpty then none
  else some { g with operands := g.operands ++ operands }

end Given

/-- How the reading of the arguments ended. -/
inductive Ending where
  | finished
  | flag (f : Flag)
  | command (name : String) (rest : List String)
  deriving DecidableEq

/-- An argument by its form. -/
inductive Argument where
  | escape
  | long (name : String) (value : Option String)
  | short (letter : Char) (value : Option String)
  | operand (s : String)
  deriving DecidableEq

namespace Argument

/-- The form of an argument; a single dash is an operand. -/
def ofString (s : String) : Argument :=
  match s.toList with
  | ['-', '-'] => .escape
  | '-' :: '-' :: rest =>
    let name := String.ofList (rest.takeWhile (· ≠ '='))
    match rest.dropWhile (· ≠ '=') with
    | [] => .long name none
    | _ :: value => .long name (some (String.ofList value))
  | ['-'] => .operand s
  | '-' :: letter :: [] => .short letter none
  | '-' :: letter :: '=' :: value => .short letter (some (String.ofList value))
  | '-' :: letter :: value => .short letter (some (String.ofList value))
  | _ => .operand s

end Argument

namespace CommandSpec

/-- What a dashed argument names. -/
def named? (spec : CommandSpec) : Argument → Option (Flag ⊕ OptionSpec)
  | .long name value =>
    match spec.flags.find? fun f => f.1 = name with
    | some f => if value.isSome then none else some (.inl f.2.2)
    | none => (spec.options.find? fun o => o.name = name).map Sum.inr
  | .short letter _ =>
    match spec.flags.find? fun f => f.2.1 = letter with
    | some f => some (.inl f.2.2)
    | none => (spec.options.find? fun o => o.letter = some letter).map Sum.inr
  | _ => none

/-- The value that is attached to a dashed argument. -/
def attached : Argument → Option String
  | .long _ value => value
  | .short _ value => value
  | _ => none

/-- Reads arguments up to the end, a flag, or the name of a command; `none` if they do not fit. -/
def read (spec : CommandSpec) (g : Given) : List String → Option (Given × Ending)
  | [] => some (g, .finished)
  | s :: rest =>
    match Argument.ofString s with
    | .escape => do return (← g.withOperands? spec.maxOperands rest, .finished)
    | .operand name =>
      if spec.commands.contains name then some (g, .command name rest)
      else
        match g.withOperands? spec.maxOperands [name] with
        | none => none
        | some g' => spec.read g' rest
    | argument =>
      match spec.named? argument with
      | none => none
      | some (.inl flag) => some (g, .flag flag)
      | some (.inr o) =>
        match attached argument with
        | some value =>
          match g.withOption? o value with
          | none => none
          | some g' => spec.read g' rest
        | none =>
          match rest with
          | [] => none
          | next :: others =>
            match Argument.ofString next with
            | .operand value =>
              match g.withOption? o value with
              | none => none
              | some g' => spec.read g' others
            | _ => none

end CommandSpec

end CommandLine
end PulseSequencer
