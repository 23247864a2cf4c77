import ErDiagram.CommandLine.Reading

/-!
# Invocations

What a command line asks the program to do.

A command line is read twice: by the grammar of the program, which leaves the name of the command
and everything behind it in one operand, and then by the grammar of that command.  Anything that is
left over in either reading makes it a misuse, but only after both have been tried, so asking for
help comes before that complaint.
-/

set_option autoImplicit false

namespace ErDiagram.CommandLine

/-- A command and its arguments.  A file that is not named, or named by a hyphen, is the standard
input. -/
inductive Command where
  /-- Writes a diagram in canonical form. -/
  | format (file : Option String) (withPresentation inPlace : Bool)
  /-- Writes the query for some columns. -/
  | query (file : String) (columns : List String)
  /-- Moves a field into a lookup table. -/
  | normalize (file field : String) (table : Option String) (inPlace : Bool)
  /-- Writes a diagram as an example. -/
  | showExample
  deriving DecidableEq, Repr

/-- A command, and whether all remarks are asked for. -/
structure Invocation where
  /-- Whether all remarks are asked for. -/
  verbose : Bool
  /-- The command. -/
  command : Command
  deriving DecidableEq, Repr

/-- The grammar of a whole command line: the name of a command and all that belongs to it. -/
def Grammar.program : Grammar := ⟨[.help, .verbose], [.rest]⟩

/-- The grammar of a command. -/
def Grammar.ofCommand? : String → Option Grammar
  | "format" => some ⟨[.help, .noMeta, .inPlace], [.optional]⟩
  | "query" => some ⟨[.help], [.one, .many]⟩
  | "normalize" => some ⟨[.help, .field, .table, .inPlace], [.one]⟩
  | "example" => some ⟨[.help], []⟩
  | _ => none

namespace Reading

/-- Whether a switch was given. -/
def has (r : Reading) (s : Switch) : Bool := r.given.any (·.1 == s)

/-- The value given last for a switch. -/
def value? (r : Reading) (s : Switch) : Option String :=
  (r.given.reverse.find? (·.1 == s)).map Prod.snd

/-- The command with a given name, and the arguments that were read. -/
def command (r : Reading) (name : String) : Except Stop Command :=
  match name, r.operands with
  | "format", [file] => .ok (.format file.head? (!r.has .noMeta) (r.has .inPlace))
  | "query", [[file], columns] => .ok (.query file columns)
  | "normalize", [[file]] =>
    match r.value? .field with
    | some field => .ok (.normalize file field (r.value? .table) (r.has .inPlace))
    | none => .error .misuse
  | "example", [] => .ok .showExample
  | _, _ => .error .misuse

end Reading

/-- What a command line asks for. -/
def Invocation.ofWords (words : List String) : Except Stop Invocation := do
  let outer ← Grammar.program.read words
  match outer.operands with
  | [name :: arguments] =>
    match Grammar.ofCommand? name with
    | none => throw .misuse
    | some g =>
      let inner ← g.read arguments
      let command ← inner.command name
      if outer.isLeftOver || inner.isLeftOver then throw .misuse
      return ⟨outer.has .verbose, command⟩
  | _ => throw .misuse

end ErDiagram.CommandLine
