import LoxScript.Number.Rounding

/-!
# The shortest decimal of a number

A finite number is written by the decimal with the fewest digits among those that round to it, and
the nearest of those. The grids of decimals `q * 10 ^ k` are tried from coarse to fine. On each grid
only the two neighbours of the number can be nearest to it, and the first grid on which one of them
rounds back gives the answer; of two, the nearer one, and the upper one of two equally near.

Seventeen digits always suffice. Should no grid tried give an answer, the exact value is written: it
is a decimal with 1074 places.

## Main definitions

* `Number.ReadsAs`: a decimal rounds to a given magnitude.
* `Number.shortest`: the decimal a magnitude is written as.
-/

namespace LoxScript.Number

/-- A decimal rounds to exactly this magnitude. -/
def ReadsAs (d : Decimal) (magnitude : Nat) : Prop :=
  Reaches d.units (Nat.pow 10 d.places) magnitude ∧
    ¬ Reaches d.units (Nat.pow 10 d.places) (magnitude + 1)

/-- Whether a decimal rounds to a magnitude is decided by its two boundaries. -/
instance (d : Decimal) (magnitude : Nat) : Decidable (ReadsAs d magnitude) :=
  inferInstanceAs (Decidable (_ ∧ _))

/-- The point `q * 10 ^ exponent` of a grid. -/
def gridPoint (q : Nat) : (exponent : Int) → Decimal
  | .ofNat k => ⟨q * Nat.pow 10 k, 0⟩
  | .negSucc k => ⟨q, k + 1⟩

/-- The value of a magnitude in units of `10 ^ exponent`, as a ratio. -/
def onGrid (magnitude : Nat) : (exponent : Int) → Nat × Nat
  | .ofNat k => (steps magnitude, Nat.pow 2 1074 * Nat.pow 10 k)
  | .negSucc k => (steps magnitude * Nat.pow 10 (k + 1), Nat.pow 2 1074)

/-- The neighbour on the grid that is the better way to write a magnitude, if one rounds to it. -/
def gridCandidate? (magnitude : Nat) (exponent : Int) : Option Decimal :=
  let (numerator, denominator) := onGrid magnitude exponent
  let below := gridPoint (numerator / denominator) exponent
  let above := gridPoint (numerator / denominator + 1) exponent
  -- half way between the neighbours the upper one is taken
  let nearBelow := 2 * (numerator % denominator) < denominator
  match decide (ReadsAs below magnitude), decide (ReadsAs above magnitude) with
  | true, true => some (if nearBelow then below else above)
  | true, false => some below
  | false, true => some above
  | false, false => none

/-- The exact value of a magnitude. -/
def exact (magnitude : Nat) : Decimal := ⟨steps magnitude * Nat.pow 5 1074, 1074⟩

/-- The candidate of the coarsest of `count` grids that has one, from `exponent` down. -/
def coarsest (magnitude : Nat) : (count : Nat) → (exponent : Int) → Decimal
  | 0, _ => exact magnitude
  | count + 1, exponent =>
    match gridCandidate? magnitude exponent with
    | some d => d
    | none => coarsest magnitude count (exponent - 1)

/-- An exponent of ten above every digit of a magnitude. A binary digit is worth 0.30103 decimal ones,
and two are added for what the logarithm and the quotient leave out. -/
def topExponent (magnitude : Nat) : Int :=
  (Nat.log2 (steps magnitude) - 1074 : Int) * 30103 / 100000 + 2

/-- The decimal with the fewest digits that rounds to a finite magnitude, the nearest of them. -/
def shortest (magnitude : Nat) : Decimal :=
  -- seventeen grids for as many digits, and some for those above the first digit
  if magnitude = 0 then ⟨0, 0⟩ else coarsest magnitude 24 (topExponent magnitude)

end LoxScript.Number
