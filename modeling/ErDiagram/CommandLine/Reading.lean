import ErDiagram.CommandLine.Word

/-!
# Reading a command line

Switches and operands may be mixed.  Operands are filled in order, each time as many as the words up
to the next switch are enough for.  Words that nothing takes are left over.
-/

set_option autoImplicit false

namespace ErDiagram.CommandLine

/-! ## Operands

An operand takes words from the front if they are operands.  `takeAll` fills the operands in their
order and stops at the first one that cannot be filled, which is then tried again behind the next
switch. -/

namespace Arity

/-- The words that one operand takes, and those that follow.  Words `--` go with the operands beside
them. -/
def take? (a : Arity) (ws : List Word) : Option (List Word × List Word) :=
  let separators := ws.takeWhile (·.role = .separator)
  match a, ws.dropWhile (·.role = .separator) with
  | one, w :: ws | optional, w :: ws =>
    if w.role = .operand then
      some (separators ++ w :: ws.takeWhile (·.role = .separator),
        ws.dropWhile (·.role = .separator))
    else if a = optional then some (separators, w :: ws) else none
  | many, w :: ws =>
    if w.role = .operand then
      some (separators ++ w :: ws.takeWhile (!·.isSwitch), ws.dropWhile (!·.isSwitch))
    else none
  | rest, w :: ws => if w.role = .operand then some (separators ++ w :: ws, []) else none
  | optional, [] => some (separators, [])
  | _, [] => none

/-- The values in the words that an operand takes; the first `--` among them is none, unless the
operand takes all that follow. -/
def values (a : Arity) (ws : List Word) : List String :=
  if a = rest then ws.map Word.text else (ws.map Word.text).erase "--"

/-- The values of as many operands as there are words for, and the words that follow. -/
def takeAll : List Arity → List Word → List (List String) × List Word
  | [], ws => ([], ws)
  | a :: as, ws =>
    match a.take? ws with
    | none => ([], ws)
    | some (taken, ws) =>
      let (values, ws) := takeAll as ws
      (a.values taken :: values, ws)

end Arity

/-! ## Switches

One word may hold several switches, or a switch and its value.  This is worked out for a word by
itself; only a switch that still waits for its value looks at the next word. -/

/-- What a switch word leads to: switches without a value, then perhaps one whose value is known or
yet to come. -/
structure SwitchReading where
  /-- Switches without a value. -/
  flags : List Switch := []
  /-- A switch and its value. -/
  valued : Option (Switch × String) := none
  /-- A switch whose value is the next word. -/
  awaiting : Option Switch := none
  deriving DecidableEq, Repr

namespace SwitchReading

/-- A reading of a switch that stands alone. -/
def bare (s : Switch) : SwitchReading :=
  if s.takesValue then { awaiting := some s } else { flags := [s] }

/-- A reading with one more switch in front. -/
def withFlag (r : SwitchReading) (s : Switch) : SwitchReading := { r with flags := s :: r.flags }

/-- A reading of a switch with more in the same word, where `isLetter` says that the switch is named
by one letter.  What more there is is the value of a switch that takes one; a switch of one letter
that takes none may be followed by the letters of further switches. -/
def attached (g : Grammar) (s : Switch) (isLetter : Bool) :
    List Char → Except Stop SwitchReading
  | [] => if s.takesValue then .ok { valued := some (s, "") } else .error .misuse
  | c :: cs =>
    if s.takesValue then .ok { valued := some (s, String.ofList (c :: cs)) }
    else if isLetter then
      match Word.switchNamed? g (String.ofList ['-', c]), cs with
      | none, _ => .error .misuse
      | some t, [] => .ok ((bare t).withFlag s)
      | some t, d :: ds => (attached g t true (d :: ds)).map (·.withFlag s)
    else .error .misuse

/-- The reading of a switch word. -/
def of (g : Grammar) (s : Switch) (name : String) : Option (List Char) →
    Except Stop SwitchReading
  | none => .ok (bare s)
  | some more => attached g s (name.length = 2) more

end SwitchReading

/-- The words behind a switch word that are left when it has its value. -/
def SwitchReading.wordsLeft (s : SwitchReading) (ws : List Word) : List Word :=
  if s.awaiting.isSome then ws.drop 1 else ws

theorem SwitchReading.length_wordsLeft_le (s : SwitchReading) (ws : List Word) :
    (s.wordsLeft ws).length ≤ ws.length := by
  rw [wordsLeft]; split <;> simp

/-! ## Whole command lines

The words are read from the front.  Where no switch is left the operands take what they can, and
those that are required must be filled by then.  Each turn takes at least one word off, by which the
recursion comes to an end. -/

/-- What has been read of a command line. -/
structure Reading where
  /-- The switches given, in order; one without a value has the empty one. -/
  given : List (Switch × String) := []
  /-- The values of the operands filled so far. -/
  operands : List (List String) := []
  /-- Whether words were left over. -/
  isLeftOver : Bool := false
  deriving DecidableEq, Repr

namespace Reading

/-- A reading with the switches of one word; `ws` are the words behind it. -/
def give (r : Reading) (s : SwitchReading) (ws : List Word) : Except Stop Reading := do
  let awaited ←
    match s.awaiting, ws with
    | none, _ => pure none
    | some t, w :: _ => if w.role = .operand then pure (some (t, w.text)) else throw .misuse
    | some _, [] => throw .misuse
  if .help ∈ s.flags then throw .help
  return { r with
    given := r.given ++ s.flags.map (·, "") ++ s.valued.toList ++ awaited.toList }

/-- A reading with the values of further operands. -/
def fill (r : Reading) (values : List (List String)) : Reading :=
  { r with operands := r.operands ++ values }

/-- A reading with words left over. -/
def leave (r : Reading) (ws : List Word) : Reading :=
  { r with isLeftOver := r.isLeftOver || !ws.isEmpty }

/-- The reading of words, when `r` has been read before them and the operands `pending` are yet to
be filled. -/
def ofWords (g : Grammar) (pending : List Arity) (r : Reading) (ws : List Word) :
    Except Stop Reading :=
  if ws.all (!·.isSwitch) then
    let (values, left) := Arity.takeAll pending ws
    if (pending.drop values.length).any Arity.isRequired then .error .misuse
    else .ok ((r.fill values).leave left)
  else
    match ws with
    | [] => .ok r
    | w :: rest =>
      match w.role with
      | .unknown => ofWords g pending (r.leave [w]) rest
      | .switch s name more =>
        match SwitchReading.of g s name more with
        | .error stop => .error stop
        | .ok sr =>
          match r.give sr rest with
          | .error stop => .error stop
          | .ok r => ofWords g pending r (sr.wordsLeft rest)
      | .operand | .separator =>
        let (values, left) := Arity.takeAll pending (w :: rest)
        if left.length < (w :: rest).length then
          ofWords g (pending.drop values.length) (r.fill values) left
        else
          ofWords g (pending.drop values.length) ((r.fill values).leave [w])
            (rest.dropWhile (!·.isSwitch))
  termination_by ws.length
  decreasing_by
    · exact Nat.lt_succ_self _
    · exact Nat.lt_succ_of_le (sr.length_wordsLeft_le rest)
    · assumption
    · exact Nat.lt_succ_of_le (List.dropWhile_sublist _).length_le

end Reading

/-- The reading of a command line by a grammar. -/
def Grammar.read (g : Grammar) (texts : List String) : Except Stop Reading := do
  Reading.ofWords g g.operands {} (← Word.classify g texts)

end ErDiagram.CommandLine
