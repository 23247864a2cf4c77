import ErDiagram.CommandLine.Grammar
import ErDiagram.Text.DecimalDigit

/-!
# The words of a command line

Whether a word is a switch or an operand depends on its form alone:

* every word behind a word `--` is an operand, and `--` itself is none;
* a word that is the name of a switch, or a name and a value with an equals sign between them, is
  that switch; a long name may be cut short as long as only one switch is meant;
* a single hyphen and the letters of several switches are those switches, one after the other; an
  equals sign may stand between the first letter and the second;
* any other word with a hyphen in front is a switch that is not known, unless it is a hyphen alone,
  looks like a negative number, or holds a space.

The role of a word depends on the grammar and on whether a word `--` stands in front of it, and on
nothing else.  So all words are classified before any is read, and a word that looks like a switch
is one even where a value is expected.
-/

set_option autoImplicit false

namespace ErDiagram.CommandLine

/-- What a word is. -/
inductive Role where
  /-- An operand. -/
  | operand
  /-- The word `--`. -/
  | separator
  /-- A switch by one of its names, with more in the same word or without: what stands behind an
  equals sign, or directly behind a name of one letter. -/
  | switch (s : Switch) (name : String) (more : Option (List Char))
  /-- A switch that is not known. -/
  | unknown
  deriving DecidableEq, Repr

/-- A word with its role. -/
structure Word where
  /-- The word. -/
  text : String
  /-- What it is. -/
  role : Role
  deriving DecidableEq, Repr

namespace Word

/-- Whether a word is a switch, known or not. -/
def isSwitch (w : Word) : Bool :=
  match w.role with
  | .switch _ _ _ | .unknown => true
  | .operand | .separator => false

/-! ## The role of a word

The forms are tried in a fixed order, and the first that fits decides. -/

/-- Whether a text looks like a negative number; a line feed at its end does not count. -/
def isNegativeNumber (cs : List Char) : Bool :=
  match if cs.getLast? = some '\n' then cs.dropLast else cs with
  | '-' :: ds =>
    let fraction := (ds.dropWhile Text.isDecimalDigit).drop 1
    (!ds.isEmpty && ds.all Text.isDecimalDigit) ||
      ((ds.dropWhile Text.isDecimalDigit).head? == some '.' && !fraction.isEmpty &&
        fraction.all Text.isDecimalDigit)
  | _ => false

/-- The switch of a grammar with a given name. -/
def switchNamed? (g : Grammar) (name : String) : Option Switch :=
  g.switches.find? (·.names.contains name)

/-- A word divided at its first equals sign, if there is one. -/
def divide (cs : List Char) : List Char × Option (List Char) :=
  match cs.dropWhile (· ≠ '=') with
  | [] => (cs, none)
  | _ :: more => (cs.takeWhile (· ≠ '='), some more)

/-- The switches that a word may abbreviate or begin with. -/
def candidates (g : Grammar) (cs : List Char) : List Role :=
  match cs with
  | '-' :: '-' :: _ =>
    let (start, more) := divide cs
    g.switches.flatMap fun s ↦
      (s.names.filter fun n ↦ start.isPrefixOf n.toList).map fun n ↦ .switch s n more
  | '-' :: c :: more =>
    let name := String.ofList ['-', c]
    (switchNamed? g name).toList.map fun s ↦ .switch s name (some more)
  | _ => []

/-- The role of a word with a hyphen and more, which is no name of a switch as it stands. -/
def hyphenated (g : Grammar) (cs : List Char) : Except Stop Role :=
  let (name, more) := divide cs
  match more.bind fun _ ↦ switchNamed? g (String.ofList name) with
  | some s => .ok (.switch s (String.ofList name) more)
  | none =>
    match candidates g cs with
    | [role] => .ok role
    | _ :: _ :: _ => .error .misuse
    | [] => .ok (if isNegativeNumber cs || cs.contains ' ' then .operand else .unknown)

/-- The role of a word in front of any `--`. -/
def roleOf (g : Grammar) (text : String) : Except Stop Role :=
  match text.toList with
  | '-' :: c :: cs =>
    match switchNamed? g text with
    | some s => .ok (.switch s text none)
    | none => hyphenated g ('-' :: c :: cs)
  | _ => .ok .operand

/-- Words with their roles. -/
def classify (g : Grammar) : List String → Except Stop (List Word)
  | [] => .ok []
  | text :: texts =>
    if text = "--" then .ok (⟨text, .separator⟩ :: texts.map (⟨·, .operand⟩))
    else do
      let role ← roleOf g text
      return ⟨text, role⟩ :: (← classify g texts)

end Word

end ErDiagram.CommandLine
