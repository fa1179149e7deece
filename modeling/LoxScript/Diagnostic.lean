/-!
# Diagnostics

What is said about a mistake in a script: the line, the place in the line, and a message. The text of
a diagnostic has the form `[line 3] Error at 'x': message`.
-/

namespace LoxScript

/-- The place that a diagnostic names besides its line. -/
inductive Location where
  /-- None. -/
  | unstated
  /-- The end of the script. -/
  | atEnd
  /-- The text of a token. -/
  | atLexeme (lexeme : String)
deriving DecidableEq, Repr

/-- The words for a place, with a blank in front of them. -/
def Location.text : Location → String
  | .unstated => ""
  | .atEnd => " at end"
  | .atLexeme lexeme => s!" at '{lexeme}'"

/-- One mistake in a script. -/
structure Diagnostic where
  /-- The line blamed. -/
  line : Nat
  /-- The place in the line. -/
  location : Location
  /-- What is wrong. -/
  message : String
deriving DecidableEq, Repr

namespace Diagnostic

/-- The text of one diagnostic. -/
def text (d : Diagnostic) : String := s!"[line {d.line}] Error{d.location.text}: {d.message}"

/-- The text of several diagnostics: one below the other, without a final line feed. -/
def report (ds : List Diagnostic) : String := "\n".intercalate (ds.map text)

end Diagnostic

end LoxScript
