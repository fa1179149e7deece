import LoxScript.Number.Basic
import LoxScript.Number.Decimal

/-!
# Rounding to the nearest number

A ratio of natural numbers is rounded to the nearest binary64 magnitude; a ratio half way between two
neighbours goes to the even one. Half way past the greatest finite magnitude, and from there on, the
answer is infinity, which has an even pattern.

The magnitudes are treated as one increasing sequence. `Number.steps` gives the value of each in
units of `2 ^ (-1074)`, the least positive one, also beyond the last finite magnitude, where it goes
on as if the exponent had no limit. That makes infinity the neighbour of the greatest finite one.

## Main definitions

* `Number.steps`: the exact value of a magnitude.
* `Number.Reaches`: a ratio rounds to the given magnitude or to a greater one.
* `Number.nearest`: the greatest magnitude reached, found one bit at a time.
-/

namespace LoxScript.Number

/-- The value of a magnitude, as a multiple of the least positive one. -/
def steps (magnitude : Nat) : Nat :=
  let exponent := magnitude / Nat.pow 2 52
  let fraction := magnitude % Nat.pow 2 52
  -- the bit that stands before the fraction is not kept, and there is none at the least exponent
  if exponent = 0 then fraction else (Nat.pow 2 52 + fraction) * Nat.pow 2 (exponent - 1)

/-- Whether `numerator / denominator` rounds to the given magnitude or to a greater one, that is
whether it lies beyond the middle between that magnitude and the one before it, or on the middle
where the later one is the even one. -/
def Reaches (numerator denominator : Nat) : Nat → Prop
  | 0 => True
  | before + 1 =>
    let value := numerator * Nat.pow 2 1075
    -- both in half steps, with the denominators multiplied out
    let middle := (steps before + steps (before + 1)) * denominator
    middle < value ∨ middle = value ∧ (before + 1) % 2 = 0

/-- Whether a ratio reaches a magnitude is a comparison of two natural numbers. -/
instance (numerator denominator : Nat) : DecidablePred (Reaches numerator denominator)
  | 0 => isTrue trivial
  | _ + 1 => inferInstanceAs (Decidable (_ ∨ _))

/-- The greatest number below `low + 2 ^ count` that satisfies `test`, for a `test` that holds of
`low` and holds of everything up to the greatest number it holds of. -/
def greatest (test : Nat → Bool) : (count low : Nat) → Nat
  | 0, low => low
  | bit + 1, low =>
    greatest test bit (if test (low + Nat.pow 2 bit) then low + Nat.pow 2 bit else low)

/-- The magnitude nearest to `numerator / denominator`. -/
def nearest (numerator denominator : Nat) : Nat :=
  -- a magnitude has eleven bits of exponent and fifty-two of fraction
  greatest (fun magnitude => magnitude ≤ infinity ∧ Reaches numerator denominator magnitude) 63 0

/-- The number nearest to a decimal. -/
def ofDecimal (d : Decimal) : Number := ofMagnitude (nearest d.units (Nat.pow 10 d.places))

end LoxScript.Number
