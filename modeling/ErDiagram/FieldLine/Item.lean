import ErDiagram.FieldLine.Token
import ErDiagram.Schema.Modifier

/-!
# The grammar of a field line

A field line is a name followed by items.  Any token that looks like a name may be the name, also a
keyword; what follows it is cut into items from left to right, and every sequence of tokens can be.
An item takes as many tokens as it can use:

* `pk`, `unique`, `unsigned`, `null` are modifiers, and `not null` takes `null` back;
* a word, with an argument list directly behind it or not, and a target are types;
* `default` takes the next token as its value if that is a name, target, number or quoted text, and
  an argument list behind the value as a part of it;
* `fk` takes a target, and a relation takes a word or a target, as what the field refers to.

A token that no item can use is an item of its own, which means nothing.

So an item has at most one keyword or operator at its front and at most two operands behind it, and
`Item.first` decides by looking at the tokens ahead: an operand that could be taken is taken.
Nothing is ever put back.  Reading the items is therefore a recursion on what `Item.first` leaves,
which is shorter than what it was given (`Item.length_first_le`).

The grammar looks at the kinds of tokens and copies their texts.  It does not ask for their places
in the line, which only the editor does.
-/

set_option autoImplicit false

namespace ErDiagram

/-! ## Items and what they are made of

An item keeps what counts for the field and drops the tokens themselves; a token without a meaning
is kept as an item because the remarks on a line speak of it. -/

/-- A part of a field line behind the name. -/
inductive Item where
  /-- A modifier. -/
  | modifier (m : Modifier)
  /-- Takes the modifier `null` back. -/
  | notNull
  /-- A type, as written. -/
  | type (text : String)
  /-- A default value, as written. -/
  | default (value : String)
  /-- A foreign key, with the target written behind it. -/
  | foreignKey (target : Option Reference)
  /-- A relation, with the target written behind it. -/
  | relation (spelling : String) (target : Option Reference)
  /-- A token without a meaning where it stands. -/
  | ignored (text : String)
  deriving DecidableEq, Repr

namespace TokenKind

/-- Whether a token may be the name of a field. -/
def isName : TokenKind → Bool
  | word | keyword _ => true
  | _ => false

/-- Whether a token may be a default value. -/
def isValue : TokenKind → Bool
  | word | target | number | quotation | keyword _ => true
  | _ => false

/-- Whether a token may be what a relation refers to. -/
def isReferable : TokenKind → Bool
  | word | target => true
  | _ => false

end TokenKind

namespace Item

/-! ## Reading items

An item is decided by its first token, and by the next one or two where these can be used. -/

/-- The token at the front, if it is of a kind that is asked for. -/
def operand? (ok : TokenKind → Bool) : List Token → Option (Token × List Token)
  | [] => none
  | t :: ts => if ok t.kind then some (t, ts) else none

/-- A text with the argument list at the front of the tokens behind it, if there is one. -/
def withArguments (text : String) (ts : List Token) : String × List Token :=
  match operand? (· = .arguments) ts with
  | some (a, ts) => (text ++ a.text, ts)
  | none => (text, ts)

/-- The item that starts with a token, and the tokens behind the item. -/
def first (t : Token) (ts : List Token) : Item × List Token :=
  match t.kind with
  | .word =>
    let (text, ts) := withArguments t.text ts
    (.type text, ts)
  | .target => (.type t.text, ts)
  | .relation =>
    match operand? TokenKind.isReferable ts with
    | some (o, ts) => (.relation t.text (some (.ofTarget o.text t.text)), ts)
    | none => (.relation t.text none, ts)
  | .keyword .fk =>
    match operand? (· = .target) ts with
    | some (o, ts) => (.foreignKey (some (.ofTarget o.text defaultRelation)), ts)
    | none => (.foreignKey none, ts)
  | .keyword .default =>
    match operand? TokenKind.isValue ts with
    | some (o, ts) =>
      let (value, ts) := withArguments o.text ts
      (.default value, ts)
    | none => (.ignored t.text, ts)
  | .keyword .not =>
    match operand? (· = .keyword .null) ts with
    | some (_, ts) => (.notNull, ts)
    | none => (.ignored t.text, ts)
  | .keyword .pk => (.modifier .pk, ts)
  | .keyword .unique => (.modifier .unique, ts)
  | .keyword .unsigned => (.modifier .unsigned, ts)
  | .keyword .null => (.modifier .null, ts)
  | .number | .quotation | .arguments | .point => (.ignored t.text, ts)

theorem length_operand {ok : TokenKind → Bool} {ts : List Token} {t : Token} {rest : List Token}
    (h : operand? ok ts = some (t, rest)) : rest.length < ts.length := by
  cases ts with
  | nil => cases h
  | cons u us =>
    rw [operand?] at h
    split at h <;> cases h
    exact Nat.lt_succ_self _

theorem length_withArguments_le (text : String) (ts : List Token) :
    (withArguments text ts).2.length ≤ ts.length := by
  rw [withArguments]
  split
  · next h => exact Nat.le_of_lt (length_operand h)
  · exact Nat.le_refl _

/-- An item uses up no more tokens than there are. -/
theorem length_first_le (t : Token) (ts : List Token) : (first t ts).2.length ≤ ts.length := by
  rw [first]
  split
  · exact length_withArguments_le _ _
  · exact Nat.le_refl _
  all_goals first
    | exact Nat.le_refl _
    | (split
       · next h => first
          | exact Nat.le_of_lt (length_operand h)
          | exact Nat.le_trans (length_withArguments_le _ _) (Nat.le_of_lt (length_operand h))
       · exact Nat.le_refl _)

/-- The items that tokens make up. -/
def ofTokens : List Token → List Item
  | [] => []
  | t :: ts => (first t ts).1 :: ofTokens (first t ts).2
  termination_by ts => ts.length
  decreasing_by exact Nat.lt_succ_of_le (length_first_le t ts)

end Item

/-- A field line: the name of the field and the items behind it. -/
structure FieldLine where
  /-- The name of the field. -/
  name : String
  /-- The items behind the name. -/
  items : List Item
  deriving DecidableEq, Repr

namespace FieldLine

/-- The field line that tokens make up, if the first may be a name. -/
def ofTokens? : List Token → Option FieldLine
  | [] => none
  | t :: ts => if t.kind.isName then some ⟨t.text, Item.ofTokens ts⟩ else none

/-- The field line that a text makes up. -/
def ofText? (text : List Char) : Option FieldLine := ofTokens? (Token.scan text)

end FieldLine
end ErDiagram
