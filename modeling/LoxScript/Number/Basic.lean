/-!
# Numbers

A number of the language is a binary64 pattern. This module holds the pattern itself: its sign, its
magnitude, the patterns that are infinite or not a number, negation, and the order. How decimals are
rounded to patterns and written back is the subject of `LoxScript.Number.Rounding` and
`LoxScript.Number.Shortest`.

All patterns that are not a number are kept apart here. That no program can tell them apart is a
fact about the rest of the language.

## Main definitions

* `Number`: sixty-four bits, with `Number.isNegative` and `Number.magnitude`.
* `Number.less`, `Number.atMost`: the order of the values, in which nothing compares with a pattern
  that is not a number, and both zeros stand at the same place.
-/

namespace LoxScript

/-- A number, held as its sixty-four bits: the sign, eleven bits of exponent, and fifty-two bits of
fraction, from the most significant down. -/
structure Number where
  /-- The bits, as one word. -/
  bits : UInt64
deriving DecidableEq, Repr, Inhabited

namespace Number

/-- The word that holds the sign bit alone. -/
def signBit : UInt64 := 0x8000000000000000

/-- The magnitude of infinity. Every greater magnitude is not a number. -/
def infinity : Nat := 0x7ff0000000000000

/-- Whether the sign bit is set. -/
def isNegative (x : Number) : Bool := signBit ≤ x.bits

/-- The pattern without its sign. Of two magnitudes up to `infinity` the larger one is the pattern
of the larger absolute value. -/
def magnitude (x : Number) : Nat := (x.bits % signBit).toNat

/-- Whether the pattern stands for no number at all. -/
def isNaN (x : Number) : Bool := infinity < x.magnitude

/-- Whether the pattern is one of the two infinities. -/
def isInfinite (x : Number) : Bool := x.magnitude = infinity

/-- The number without a sign that has the given magnitude. -/
def ofMagnitude (magnitude : Nat) : Number := ⟨UInt64.ofNat magnitude⟩

/-- The same number with the other sign: adding the sign bit to the word carries out of it. -/
def neg (x : Number) : Number := ⟨x.bits + signBit⟩

/-- The place of a number in the order of all values. Both zeros are at place zero. -/
def place (x : Number) : Int := if x.isNegative then -(x.magnitude : Int) else x.magnitude

/-- Whether both patterns are numbers and the first is the smaller one. -/
def less (x y : Number) : Bool := !x.isNaN && !y.isNaN && x.place < y.place

/-- Whether both patterns are numbers and the first is not the greater one. -/
def atMost (x y : Number) : Bool := !x.isNaN && !y.isNaN && x.place ≤ y.place

/-- Whether two numbers are the same to a program: the same pattern, or both not a number. The two
zeros differ. -/
def same (x y : Number) : Bool := x.isNaN && y.isNaN || x.bits = y.bits

end Number

end LoxScript
