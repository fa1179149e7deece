import LoxScript.Evaluation.Value

/-!
# Runtime errors

What can go wrong when a program runs, and the line of the token at which it does.
-/

namespace LoxScript

/-- What went wrong. -/
inductive RuntimeError.Problem where
  /-- A sign in front of something else than a number. -/
  | operandMustBeNumber
  /-- An operator of arithmetic or order with an operand that is not a number. -/
  | operandsMustBeNumbers
  /-- A plus between operands that are neither two numbers nor two strings. -/
  | operandsMustBeNumbersOrStrings
  /-- A call of something else than a function. -/
  | notCallable
  /-- A name that no scope around binds. -/
  | undefinedVariable (name : String)
  /-- A call with the wrong number of arguments. -/
  | arityMismatch (expected actual : Nat)
  /-- The complaint of a native function. -/
  | native (message : String)
deriving DecidableEq, Repr

/-- The message for a problem. -/
def RuntimeError.Problem.message : RuntimeError.Problem → String
  | .operandMustBeNumber => "Operand must be a number."
  | .operandsMustBeNumbers => "Operands must be numbers."
  | .operandsMustBeNumbersOrStrings => "Operands must be numbers or strings."
  | .notCallable => "Can only call functions and classes."
  | .undefinedVariable name => s!"Undefined variable '{name}'."
  | .arityMismatch expected actual => s!"Expected {expected} arguments but got {actual}."
  | .native message => message

/-- A problem at a line. -/
structure RuntimeError where
  /-- What went wrong. -/
  problem : RuntimeError.Problem
  /-- The line of the token at which it did. -/
  line : Nat
deriving DecidableEq, Repr

/-- The text of a runtime error: the message, and the line below it. -/
def RuntimeError.text (e : RuntimeError) : String := s!"{e.problem.message}\n[line {e.line}]"

end LoxScript
