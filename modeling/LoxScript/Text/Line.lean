/-!
# Line numbers

Lines are counted from one, and only a line feed begins a new one.
-/

namespace LoxScript.Text

/-- How many lines a text begins after its first. -/
def newlines (text : List Char) : Nat := text.count '\n'

/-- A text without characters begins no line. -/
@[simp]
theorem newlines_nil : newlines [] = 0 := rfl

/-- A line feed begins a line, any other character none. -/
theorem newlines_cons (c : Char) (text : List Char) :
    newlines (c :: text) = newlines text + if c = '\n' then 1 else 0 := by
  simp [newlines, List.count_cons]

/-- The lines begun in two joined texts are those begun in each. -/
@[simp]
theorem newlines_append (a b : List Char) : newlines (a ++ b) = newlines a + newlines b :=
  List.count_append

end LoxScript.Text
