import ErDiagram.Number.Decimal

/-!
# Numbers of a diagram

Zoom factors and coordinates are integers of any size or binary floating-point values.  The two are
kept apart, because an integer that no floating-point value reaches cannot be written as a
presentation line.

Only the reading of a number decides which of the two it is: digits behind an optional minus sign
make an integer, however many they are, and everything else is rounded to a floating-point value.
Computations with integers are exact.  It is when a number is written with a fixed number of places
that an integer is rounded as well, to the value nearest to it, and then there may be none.
-/

set_option autoImplicit false

namespace ErDiagram

/-- A zoom factor or a coordinate. -/
inductive Number where
  /-- An integer. -/
  | int (value : Int)
  /-- A floating-point value. -/
  | double (value : Binary64)
  deriving DecidableEq

namespace Number

/-- The floating-point value nearest to a number; `none` for an integer that is too large. -/
def toBinary64? : Number → Option Binary64
  | int n => Binary64.ofInt? n
  | double v => some v

/-- A number with a given number of decimal places, taken from the floating-point value nearest to
it; `none` when there is none. -/
def fixed? (places : Nat) (n : Number) : Option (List Char) :=
  n.toBinary64?.map (Binary64.fixed places)

/-- An integer in decimal. -/
def intText (n : Int) : List Char := signed (n < 0) (digits n.natAbs)

/-- A number written so that it can be read back. -/
def text : Number → String
  | int n => String.ofList (intText n)
  | double v => String.ofList v.text

/-! ## Reading

The spellings of a floating-point value: a sign, digits with a point among them or at either end, an
exponent, or the name of an infinity or of no number.  The digits are read as one integer, the point
only counts how many of them stand behind it, and the quotient of the two is rounded once. -/

/-- A sign in front of a text, `true` for minus, and what follows it. -/
def takeSign : List Char → Bool × List Char
  | '-' :: cs => (true, cs)
  | '+' :: cs => (false, cs)
  | cs => (false, cs)

/-- A row of digits and a fraction: the digits without the point, how many of them stand behind it,
and what follows. -/
def takeDecimal (cs : List Char) : List Char × Nat × List Char :=
  let whole := cs.takeWhile Char.isDigit
  match cs.dropWhile Char.isDigit with
  | '.' :: rest =>
    let fraction := rest.takeWhile Char.isDigit
    (whole ++ fraction, fraction.length, rest.dropWhile Char.isDigit)
  | rest => (whole, 0, rest)

/-- The exponent at the end of a text; zero when nothing is left. -/
def readExponent? : List Char → Option Int
  | [] => some 0
  | e :: cs =>
    let (negative, ds) := takeSign cs
    if (e = 'e' ∨ e = 'E') ∧ ds ≠ [] ∧ ds.all Char.isDigit then
      some (if negative then -(ofDigits ds : Int) else ofDigits ds)
    else none

/-- The floating-point value a text stands for: digits with an optional sign, point and exponent,
or the name of an infinity or of no number, in either case. -/
def readBinary64? (cs : List Char) : Option Binary64 :=
  let (negative, body) := takeSign cs
  let name := String.ofList (body.map Char.toLower)
  if name = "nan" then some .nan
  else if name = "inf" ∨ name = "infinity" then some (.infinite negative)
  else
    let (ds, places, rest) := takeDecimal body
    if ds.isEmpty then none
    else
      (readExponent? rest).map fun (exponent : Int) ↦
        let shift := exponent - places
        .ofQuotient negative (ofDigits ds * 10 ^ shift.toNat) (10 ^ (-shift).toNat)

/-- The number a text stands for: an integer if there are only digits behind an optional minus
sign, otherwise a floating-point value. -/
def ofText? (s : String) : Option Number :=
  let (negative, ds) :=
    match s.toList with
    | '-' :: cs => (true, cs)
    | cs => (false, cs)
  if ds ≠ [] ∧ ds.all Char.isDigit then
    some (int (if negative then -(ofDigits ds : Int) else ofDigits ds))
  else (readBinary64? s.toList).map double

end Number
end ErDiagram
