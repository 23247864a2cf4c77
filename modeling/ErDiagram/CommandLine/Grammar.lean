/-!
# Grammars of command lines

A command takes *switches*, some of them with a value, and *operands*, each of which takes one word
or several.

A grammar is data, and one reader serves all commands and the program itself.  What the commands
have in common, such as help and the abbreviation of long names, is settled once by the reader.
-/

set_option autoImplicit false

namespace ErDiagram.CommandLine

/-- Why a command line is not carried out. -/
inductive Stop where
  /-- It asks for help. -/
  | help
  /-- It is not of the required form. -/
  | misuse
  deriving DecidableEq, Repr

/-- The exit code for a command line that is not carried out. -/
def Stop.code : Stop → Nat
  | help => 0
  | misuse => 2

/-- The switches of all commands. -/
inductive Switch where
  /-- Asks for help. -/
  | help
  /-- Asks for all remarks. -/
  | verbose
  /-- Leaves the presentation out. -/
  | noMeta
  /-- Writes the result into the file that was read. -/
  | inPlace
  /-- Names a field. -/
  | field
  /-- Names a table. -/
  | table
  deriving DecidableEq, Repr

namespace Switch

/-- The names of a switch. -/
def names : Switch → List String
  | help => ["-h", "--help"]
  | verbose => ["-v", "--verbose"]
  | noMeta => ["--no-meta"]
  | inPlace => ["-i", "--in-place"]
  | field => ["--field"]
  | table => ["--table"]

/-- Whether a switch has a value. -/
def takesValue : Switch → Bool
  | field | table => true
  | _ => false

end Switch

/-- How many words an operand takes. -/
inductive Arity where
  /-- One word. -/
  | one
  /-- One word or none. -/
  | optional
  /-- One word or more. -/
  | many
  /-- One word and all that follow it, switches as well. -/
  | rest
  deriving DecidableEq, Repr

/-- The switches and operands of a command. -/
structure Grammar where
  /-- The switches. -/
  switches : List Switch
  /-- The operands. -/
  operands : List Arity
  deriving DecidableEq, Repr

namespace Arity

/-- Whether an operand must be there. -/
def isRequired : Arity → Bool
  | optional => false
  | _ => true

end Arity
end ErDiagram.CommandLine
