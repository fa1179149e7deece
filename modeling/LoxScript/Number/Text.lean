import LoxScript.Number.Shortest

/-!
# The text of a number

Numbers are written positionally, however large or small they are. A negative zero keeps its sign; a
pattern that is not a number has none. Infinity has one name in the text of an expression and another
in the text of a value, so the name is a parameter.
-/

namespace LoxScript.Number

/-- The text of a number, with the given word for infinity. -/
def text (infinityWord : String) (x : Number) : String :=
  if x.isNaN then "NaN"
  else
    let sign := if x.isNegative then "-" else ""
    let size := if x.isInfinite then infinityWord else String.ofList (shortest x.magnitude).text
    sign ++ size

end LoxScript.Number
