import ErDiagram.Number.Binary64

/-!
# Decimal texts of binary values

Two ways to write a value in decimal.  *Fixed places*: the exact value rounded to a given number of
places.  *Shortest*: the fewest significant digits that read back as the value, and of those the
ones nearest to it; `Digits.shortest` tries one digit, then two, and so on, and looks at the two
neighbours of the value on each decimal grid.

Directives are written with fixed places (`Binary64.fixed`), a number by itself with the fewest
digits (`Binary64.text`).  In either case the digits come first, as a natural number, and the place
of the point is decided afterwards.
-/

set_option autoImplicit false

namespace ErDiagram

open Binary64

namespace Number

/-- The decimal digits of a natural number. -/
def digits (n : Nat) : List Char := n.repr.toList

/-- Digits padded with zeros on the left to a width. -/
def padded (width n : Nat) : List Char :=
  List.replicate (width - (digits n).length) '0' ++ digits n

/-- The number that a row of decimal digits stands for. -/
def ofDigits (ds : List Char) : Nat := ds.foldl (fun n d ↦ 10 * n + (d.toNat - '0'.toNat)) 0

end Number

open Number

/-- A finite value with a given number of decimal places. -/
def Magnitude.fixed (m : Magnitude) (places : Nat) : List Char :=
  let n := m.scaled places
  if places = 0 then digits n
  else digits (n / 10 ^ places) ++ '.' :: padded places (n % 10 ^ places)

/-- A sign before the text of a magnitude. -/
def Number.signed (negative : Bool) (cs : List Char) : List Char :=
  if negative then '-' :: cs else cs

/-- A value with a given number of decimal places; the sign of a zero is kept. -/
def Binary64.fixed (places : Nat) : Binary64 → List Char
  | nan => "nan".toList
  | infinite negative => signed negative "inf".toList
  | finite negative m => signed negative (m.fixed places)

/-! ## The fewest digits

A decimal number with few digits is near a value if it is cut off from its exact expansion, or if it
is the next one on that grid; no other with as many digits can be nearer.  So for each number of
digits there are two candidates, and whether one of them stands for the value is decided by reading
it back. -/

/-- The decimal number `coefficient * 10 ^ exponent`. -/
structure Digits where
  /-- The significant digits, as a number. -/
  coefficient : Nat
  /-- The power of ten they are multiplied by. -/
  exponent : Int
  deriving DecidableEq, Repr

namespace Digits

/-- The numerator of a decimal number, over `den`. -/
def num (d : Digits) : Nat := d.coefficient * 10 ^ d.exponent.toNat

/-- The denominator of a decimal number. -/
def den (d : Digits) : Nat := 10 ^ (-d.exponent).toNat

/-- Whether a decimal number is read back as `m`. -/
def readsBack (m : Magnitude) (d : Digits) : Bool := Magnitude.nearest? d.num d.den == some m

/-- The decimal exponent of a positive value: the power of ten of its first significant digit.
Every positive value exceeds `10 ^ -400`. -/
def leadingExponent (m : Magnitude) : Int :=
  ((digits (m.units * 10 ^ 400 / unitsPerOne)).length : Int) - 401

/-- The value cut off after `count` significant digits. -/
def cut (m : Magnitude) (count : Nat) : Digits :=
  let exponent := leadingExponent m + 1 - count
  ⟨m.units * 10 ^ (-exponent).toNat / (unitsPerOne * 10 ^ exponent.toNat), exponent⟩

/-- The next number on the same decimal grid. -/
def next (d : Digits) : Digits := { d with coefficient := d.coefficient + 1 }

/-- Whether the value is nearer to `d` than to the next number on its grid; halfway, whether `d` is
even. -/
def isNearer (m : Magnitude) (d : Digits) : Bool :=
  let value := 2 * m.units * d.den
  let middle := (2 * d.coefficient + 1) * 10 ^ d.exponent.toNat * unitsPerOne
  if value = middle then d.coefficient % 2 == 0 else value < middle

/-- The number with `count` digits that reads back as the value, the nearer of two. -/
def withCount? (m : Magnitude) (count : Nat) : Option Digits :=
  let below := cut m count
  let (first, second) := if isNearer m below then (below, below.next) else (below.next, below)
  if readsBack m first then some first
  else if readsBack m second then some second
  else none

/-- The fewest digits that read back as a positive value.  Seventeen always do. -/
def shortest (m : Magnitude) : Digits :=
  ((List.range 17).findSome? fun i ↦ withCount? m (i + 1)).getD (cut m 17)

end Digits

/-- How a value is written in full: positional notation for decimal exponents from -4 to 15, always
with a point; otherwise one digit before the point and an exponent of at least two digits with its
sign. -/
def Digits.layout (d : Digits) : List Char :=
  let all := digits d.coefficient
  let ds := (all.reverse.dropWhile (· == '0')).reverse
  let point := (all.length : Int) + d.exponent
  if -4 < point ∧ point ≤ 16 then
    if point ≤ 0 then '0' :: '.' :: List.replicate (-point).toNat '0' ++ ds
    else
      let whole := ds.take point.toNat
      let fraction := ds.drop point.toNat
      whole ++ List.replicate (point.toNat - whole.length) '0' ++
        '.' :: (if fraction.isEmpty then ['0'] else fraction)
  else
    let exponent := point - 1
    ds.take 1 ++ (if ds.length ≤ 1 then [] else '.' :: ds.drop 1) ++
      'e' :: (if exponent < 0 then '-' else '+') :: padded 2 exponent.natAbs

/-- A value written so that it can be read back. -/
def Binary64.text : Binary64 → List Char
  | nan => "nan".toList
  | infinite negative => signed negative "inf".toList
  | finite negative m =>
    signed negative (if m.units = 0 then "0.0".toList else (Digits.shortest m).layout)

end ErDiagram
