/-!
# Decimals

A decimal is a count of units of `10 ^ (-places)`. It is what a number literal says before it is
rounded, and what a number is written as.

## Main definitions

* `Decimal.ofDigits`: the decimal that a run of digits before a point and one after it denote.
* `Decimal.text`: positional notation, never an exponent, with a point only if there are places.
-/

namespace LoxScript

/-- The value `units / 10 ^ places`. -/
structure Decimal where
  /-- How many units there are. -/
  units : Nat
  /-- How many digits stand after the point. -/
  places : Nat
deriving DecidableEq, Repr, Inhabited

namespace Decimal

/-- The decimal that is written with the digits `whole` before the point and `fraction` after it. -/
def ofDigits (whole fraction : List Char) : Decimal where
  units := Nat.ofDigitChars 10 (whole ++ fraction) 0
  places := fraction.length

/-- The decimal that a literal denotes: digits, then possibly a point and more digits. -/
def ofLiteral (text : List Char) : Decimal :=
  ofDigits (text.takeWhile (· != '.')) ((text.dropWhile (· != '.')).drop 1)

/-- The digits of the units, with zeros in front so that at least one digit precedes the point. -/
def digits (d : Decimal) : List Char :=
  let digits := Nat.toDigits 10 d.units
  List.replicate (d.places + 1 - digits.length) '0' ++ digits

/-- Positional notation. -/
def text (d : Decimal) : List Char :=
  if d.places = 0 then d.digits
  else
    let whole := d.digits.length - d.places
    d.digits.take whole ++ '.' :: d.digits.drop whole

end Decimal

end LoxScript
