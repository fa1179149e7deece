import LoxScript.Number.Rounding

/-!
# Arithmetic

Everything that a program can do with numbers to get a new number. Reading literals and running
programs take these operations as an argument, so that two ways of computing can be compared.

## Main definitions

* `Arithmetic`: the operations.
* `Arithmetic.binary64`: rounding each exact result to the nearest binary64 number.
-/

namespace LoxScript

/-- The operations by which numbers arise. -/
structure Arithmetic where
  /-- The number that a literal denotes. -/
  ofDecimal : Decimal → Number
  /-- The number of the other sign. -/
  neg : Number → Number
  /-- The sum. -/
  add : Number → Number → Number
  /-- The difference. -/
  sub : Number → Number → Number
  /-- The product. -/
  mul : Number → Number → Number
  /-- The quotient; division by zero gives an infinity, or no number for zero by zero. -/
  div : Number → Number → Number

namespace Arithmetic

/-- The number of a `Float`. -/
def ofFloat (x : Float) : Number := ⟨x.toBits⟩

/-- The `Float` of a number. -/
def toFloat (x : Number) : Float := Float.ofBits x.bits

/-- Arithmetic on binary64 numbers. -/
def binary64 : Arithmetic where
  ofDecimal := Number.ofDecimal
  neg := Number.neg
  add x y := ofFloat (toFloat x + toFloat y)
  sub x y := ofFloat (toFloat x - toFloat y)
  mul x y := ofFloat (toFloat x * toFloat y)
  div x y := ofFloat (toFloat x / toFloat y)

end Arithmetic

end LoxScript
